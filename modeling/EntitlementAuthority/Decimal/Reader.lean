import EntitlementAuthority.Decimal.Shortest
import EntitlementAuthority.Text.Integer

/-!
# Reading decimals

* `Decimal.ofChars?` — digits with an optional point and an optional exponent.
* `Decimal.toFloat` — the nearest floating point number.
* `readFloat?` — a number with an optional sign, also infinite or none at all.
-/

namespace EntitlementAuthority

namespace Decimal

/-- How far the exponent of a decimal can matter. -/
def exponentLimit : Int := 400

/-- The nearest floating point number; what is too great is infinite. -/
def toFloat (d : Decimal) : Float :=
  let reach := d.exponent + ((Nat.toDigits 10 d.digits).length : Int)
  if d.digits = 0 ∨ reach < -exponentLimit then 0.0
  else if exponentLimit < reach then 1.0 / 0.0
  else if d.exponent < 0 then Float.ofScientific d.digits true d.exponent.natAbs
  else Float.ofScientific d.digits false d.exponent.natAbs

/-- A whole number with an optional sign. -/
def signed? : List Char → Option Int
  | '-' :: digits => (Text.digits? digits).map fun n => -(n : Int)
  | '+' :: digits => (Text.digits? digits).map Int.ofNat
  | digits => (Text.digits? digits).map Int.ofNat

/-- Digits with a point among them, in front or behind; there is at least one digit. -/
def significand? (cs : List Char) : Option Decimal :=
  let whole := cs.takeWhile (· != '.')
  let fraction := (cs.dropWhile (· != '.')).drop 1
  (Text.digits? (whole ++ fraction)).map fun digits => ⟨digits, -(fraction.length : Int)⟩

/-- Whether a character stands in front of an exponent. -/
def isExponentMark (c : Char) : Bool :=
  c == 'e' || c == 'E'

/-- A decimal without a sign. -/
def ofChars? (cs : List Char) : Option Decimal := do
  let d ← significand? (cs.takeWhile (!isExponentMark ·))
  match cs.dropWhile (!isExponentMark ·) with
  | [] => some d
  | _ :: exponent => some { d with exponent := d.exponent + (← signed? exponent) }

end Decimal

/-- A number without a sign. -/
def readMagnitude? (cs : List Char) : Option Float :=
  match String.ofList (cs.map Char.toLower) with
  | "inf" => some (1.0 / 0.0)
  | "infinity" => some (1.0 / 0.0)
  | "nan" => some (0.0 / 0.0)
  | _ => (Decimal.ofChars? cs).map Decimal.toFloat

/-- A number with an optional sign. -/
def readFloat? (s : String) : Option Float :=
  match s.toList with
  | '-' :: cs => (readMagnitude? cs).map fun x => -x
  | '+' :: cs => readMagnitude? cs
  | cs => readMagnitude? cs

end EntitlementAuthority
