import EntitlementAuthority.Bytes.Basic
import EntitlementAuthority.Config.Setting
import EntitlementAuthority.Decimal.Reader
import EntitlementAuthority.Text.Fields
import EntitlementAuthority.Time.Rfc3339

/-!
# Numbers, truth values and moments in TOML

* `integer?`, `float?` — numbers; underscores may stand between digits.
* `moment?` — dates and times.
* `scalar?` — anything without quotes or brackets.
-/

namespace EntitlementAuthority.Toml

/-! ### Numbers -/

/-- Digits without the underscores between them. -/
def plainDigits? (isDigit : Char → Bool) (cs : List Char) : Option (List Char) :=
  let groups := Text.splitOnChar '_' cs
  if groups.all fun g => !g.isEmpty && g.all isDigit then some groups.flatten else none

/-- Decimal digits of a whole number; only zero begins with a zero. -/
def wholeDigits? (cs : List Char) : Option (List Char) :=
  (plainDigits? Char.isDigit cs).filter fun digits =>
    digits.length == 1 || digits.head? != some '0'

/-- The value of digits in some base. -/
def radixValue (base : Nat) (digits : List Char) : Nat :=
  digits.foldl (fun n c => n * base + (Bytes.hexValue? c).getD 0) 0

/-- Whether a character is a digit in some base. -/
def isDigitIn (base : Nat) (c : Char) : Bool :=
  (Bytes.hexValue? c).any (· < base)

/-- A whole number in some base; it has to fit into 64 bits. -/
def radixInteger? (base : Nat) (cs : List Char) : Option Int :=
  ((plainDigits? (isDigitIn base) cs).map fun digits => (radixValue base digits : Int)).filter
    (· < Nat.pow 2 63)

/-- A sign and what follows it. -/
def takeSign : List Char → Bool × List Char
  | '-' :: rest => (true, rest)
  | '+' :: rest => (false, rest)
  | rest => (false, rest)

/-- A whole number. Only a decimal one may have a sign. -/
def integer? : List Char → Option Int
  | '0' :: 'x' :: digits => radixInteger? 16 digits
  | '0' :: 'o' :: digits => radixInteger? 8 digits
  | '0' :: 'b' :: digits => radixInteger? 2 digits
  | cs => do
    let (negative, cs) := takeSign cs
    let n := radixValue 10 (← wholeDigits? cs)
    let n : Int := if negative then -n else n
    if -(Nat.pow 2 63 : Int) ≤ n ∧ n < Nat.pow 2 63 then some n else none

/-- The digits of an exponent with its sign. -/
def exponentValue? (cs : List Char) : Option Int := do
  let (negative, cs) := takeSign cs
  let n := radixValue 10 (← plainDigits? Char.isDigit cs)
  some (if negative then -n else n)

/-- A number with a fraction or an exponent. -/
def magnitude? (cs : List Char) : Option Decimal := do
  let isMark (c : Char) : Bool := c == '.' || Decimal.isExponentMark c
  let whole ← wholeDigits? (cs.takeWhile (!isMark ·))
  let tail := cs.dropWhile (!isMark ·)
  let (fraction, tail) ← match tail with
    | '.' :: rest => do
      let fraction ← plainDigits? Char.isDigit (rest.takeWhile (!Decimal.isExponentMark ·))
      some (fraction, rest.dropWhile (!Decimal.isExponentMark ·))
    | rest => some ([], rest)
  let exponent ← match tail with
    | [] => if fraction.isEmpty then none else some 0
    | _ :: digits => exponentValue? digits
  some ⟨radixValue 10 (whole ++ fraction), exponent - fraction.length⟩

/-- A floating point number. One without a minus sign must not be too great. -/
def float? (cs : List Char) : Option Float := do
  let (negative, cs) := takeSign cs
  let signed (x : Float) : Float := if negative then -x else x
  match String.ofList cs with
  | "inf" => some (signed (1.0 / 0.0))
  | "nan" => some (signed (0.0 / 0.0))
  | _ =>
    let x := signed (← magnitude? cs).toFloat
    if x == 1.0 / 0.0 then none else some x

/-! ### Moments -/

/-- Takes a number of two digits that is not too great. -/
def takePair? (greatest : Nat) (cs : List Char) : Option (Nat × List Char) :=
  (Instant.takeDigits? 2 cs).filter fun t => t.1 ≤ greatest

/-- Takes a date. -/
def takeDate? (cs : List Char) : Option (String × List Char) := do
  let (year, cs) ← Instant.takeDigits? 4 cs
  let (month, cs) ← Instant.takeDigits? 2 (← Instant.takeChar? '-' cs)
  let (day, cs) ← Instant.takeDigits? 2 (← Instant.takeChar? '-' cs)
  let date : Time.Date := ⟨year, month, day⟩
  if date.isValid then some (date.text, cs) else none

/-- Takes the fraction of a second, of which nine digits count; zeros at the end are left out. -/
def takeFraction? : List Char → Option (String × List Char)
  | '.' :: cs =>
    let digits := cs.takeWhile Char.isDigit
    let kept := ((digits.take 9).reverse.dropWhile (· == '0')).reverse
    if digits.isEmpty then none
    else some (if kept.isEmpty then "" else "." ++ String.ofList kept, cs.dropWhile Char.isDigit)
  | cs => some ("", cs)

/-- Takes a time of day. -/
def takeTime? (cs : List Char) : Option (String × List Char) := do
  let (hour, cs) ← takePair? 23 cs
  let (minute, cs) ← takePair? 59 (← Instant.takeChar? ':' cs)
  let (second, cs) ← takePair? 60 (← Instant.takeChar? ':' cs)
  let (fraction, cs) ← takeFraction? cs
  some (Time.padded 2 hour ++ ":" ++ Time.padded 2 minute ++ ":" ++ Time.padded 2 second
    ++ fraction, cs)

/-- An offset from Universal Time, which may be missing. -/
def offset? : List Char → Option String
  | [] => some ""
  | ['Z'] => some "Z"
  | ['z'] => some "Z"
  | sign :: cs => do
    let (hours, cs) ← takePair? 23 cs
    let (minutes, cs) ← takePair? 59 (← Instant.takeChar? ':' cs)
    let shown := if sign = '-' ∧ hours + minutes ≠ 0 then "-" else "+"
    if (sign = '+' ∨ sign = '-') ∧ cs.isEmpty then
      some (shown ++ Time.padded 2 hours ++ ":" ++ Time.padded 2 minutes)
    else none

/-- A date, a time of day, or a date with a time and perhaps an offset, in one spelling. -/
def moment? (cs : List Char) : Option String :=
  match takeDate? cs with
  | none => (takeTime? cs).bind fun t => if t.2.isEmpty then some t.1 else none
  | some (date, []) => some date
  | some (date, separator :: cs) => do
    let (time, cs) ← takeTime? cs
    let offset ← offset? cs
    if ['T', 't', ' '].contains separator then some (date ++ "T" ++ time ++ offset) else none

/-! ### All of them -/

/-- Whether a character may belong to something without quotes or brackets. -/
def isScalarChar (c : Char) : Bool :=
  c.isAlphanum || ['_', '+', '-', '.', ':'].contains c

/-- The characters of a scalar and what follows it. A date and a time may have a blank between
them. -/
def takeScalar (cs : List Char) : List Char × List Char :=
  let first := cs.takeWhile isScalarChar
  match cs.dropWhile isScalarChar with
  | ' ' :: c :: rest =>
    if c.isDigit && (takeDate? first).any fun t => t.2.isEmpty then
      (first ++ ' ' :: (c :: rest).takeWhile isScalarChar, (c :: rest).dropWhile isScalarChar)
    else (first, ' ' :: c :: rest)
  | rest => (first, rest)

/-- The value that the characters of a scalar stand for. -/
def scalarValue? (cs : List Char) : Option Setting :=
  if String.ofList cs = "true" then some (.bool true)
  else if String.ofList cs = "false" then some (.bool false)
  else
    match moment? cs, integer? cs, float? cs with
    | some s, _, _ => some (.moment s)
    | none, some n, _ => some (.integer n)
    | none, none, some x => some (.float x)
    | none, none, none => none

/-- Reads a scalar. -/
def scalar? (cs : List Char) : Option (Setting × List Char) :=
  let (scalar, rest) := takeScalar cs
  (scalarValue? scalar).map fun v => (v, rest)

end EntitlementAuthority.Toml
