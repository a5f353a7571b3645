import EntitlementAuthority.Decimal.Layout
import EntitlementAuthority.Json.Text

/-!
# The numbers of JSON

A whole number that fits 64 bits is kept. Any other number is kept as a floating point number:
as many of its digits as fit 64 bits, scaled by a power of ten. So it is near the number that is
written, but not always the nearest.

* `Json.scaled?` — scaling by a power of ten, in steps that a power can be held in.
* `Json.keptNumber?` — the text of a number as it is kept.
-/

namespace EntitlementAuthority.Json

/-- Adds digits to a significand for as long as it fits 64 bits, and says how many were added. -/
def addDigits (significand : Nat) : Bytes → Nat × Nat
  | [] => (significand, 0)
  | b :: digits =>
    let next := significand * 10 + (b.toNat - 0x30)
    if next < Nat.pow 2 64 then
      let (n, added) := addDigits next digits
      (n, added + 1)
    else (significand, 0)

/-- The greatest power of ten that a floating point number can be near to. -/
def greatestPower : Nat := 308

/-- The floating point number nearest to a power of ten. -/
def powerOfTen (n : Nat) : Float :=
  Float.ofScientific 1 false n

/-- A number scaled by a power of ten; `none` if it becomes too great. -/
def scaled? (x : Float) (exponent : Int) : Option Float :=
  if exponent < -greatestPower then
    -- one division by the whole power would divide by infinity
    if x == 0 then some x else scaled? (x / powerOfTen greatestPower) (exponent + greatestPower)
  else if exponent < 0 then some (x / powerOfTen exponent.natAbs)
  else if exponent ≤ greatestPower then
    let y := x * powerOfTen exponent.natAbs
    if y.isInf then none else some y
  else if x == 0 then some x
  else none
termination_by (-exponent).toNat
decreasing_by
  simp only [greatestPower] at *
  omega

/-- The exponent that its mark, sign and digits stand for. -/
def exponentValue : Bytes → Int
  | [] => 0
  | _ :: rest =>
    let digits := (digitsValue? (rest.dropWhile (!isDigit ·))).getD 0
    if rest.head? = some 0x2D then -(digits : Int) else digits

/-- A number that is kept as a floating point number. -/
def keptFloat? (negative : Bool) (whole fraction : Bytes) (exponent : Int) : Option Float :=
  let (n, taken) := addDigits 0 whole
  let (n, places) := addDigits n fraction
  let left := whole.length - taken
  (scaled? n.toUInt64.toFloat (exponent + left - places)).map fun x => if negative then -x else x

/-- Whether a whole number fits 64 bits; a zero with a sign does not. -/
def isKeptWhole (negative : Bool) (whole : Bytes) : Bool :=
  match digitsValue? whole with
  | some n => if negative then 0 < n && n ≤ Nat.pow 2 63 else n < Nat.pow 2 64
  | none => false

/-- The text of a number as it is kept; `none` for one that is too great. -/
def keptNumber? (text : Bytes) : Option Bytes :=
  let (sign, unsigned) := lexSign text
  let negative := !sign.isEmpty
  let whole := unsigned.takeWhile isDigit
  let ending := unsigned.dropWhile isDigit
  if ending.isEmpty && isKeptWhole negative whole then some text
  else
    let (fraction, exponent) := match ending with
      | [] => ([], [])
      | b :: rest =>
        if b = 0x2E then (rest.takeWhile isDigit, rest.dropWhile isDigit) else ([], b :: rest)
    (keptFloat? negative whole fraction (exponentValue exponent)).map fun x =>
      Bytes.ofText (NumberLayout.json.write x)

end EntitlementAuthority.Json
