import EntitlementAuthority.Decimal.Shortest

/-!
# How numbers are written

* `NumberLayout` — the decisions of a way to write floating point numbers.
* `NumberLayout.write` — the text of a number.
-/

namespace EntitlementAuthority

/-- The digits of a decimal without the zeros at their end, and the exponent that goes with
them. -/
def Decimal.significant (d : Decimal) : List Char × Int :=
  let all := Nat.toDigits 10 d.digits
  let kept := (all.reverse.dropWhile (· == '0')).reverse
  (kept, d.exponent + (all.length - kept.length : Nat))

/-- The decisions of a way to write floating point numbers. -/
structure NumberLayout where
  /-- Which of two equally good decimals is written. -/
  tie : Tie
  /-- Where the point may stand, counted from the first digit, for a number to be written without
  an exponent. -/
  isPositional : Int → Bool
  /-- What follows a whole number. -/
  wholeEnding : String
  /-- What stands in front of an exponent that is not negative. -/
  exponentPlus : String
  infinity : String
  notANumber : String

namespace NumberLayout

/-- Digits with the point at some place. -/
def positional (l : NumberLayout) (digits : List Char) (point : Int) : String :=
  if point ≤ 0 then
    "0." ++ String.ofList (List.replicate (-point).toNat '0' ++ digits)
  else if digits.length ≤ point then
    String.ofList (digits ++ List.replicate (point.toNat - digits.length) '0') ++ l.wholeEnding
  else
    String.ofList (digits.take point.toNat) ++ "." ++ String.ofList (digits.drop point.toNat)

/-- Digits with an exponent; the point stands after the first. -/
def withExponent (l : NumberLayout) (digits : List Char) (point : Int) : String :=
  let fraction := digits.drop 1
  String.ofList (digits.take 1) ++
    (if fraction.isEmpty then "" else "." ++ String.ofList fraction) ++
    "e" ++ (if point < 1 then "" else l.exponentPlus) ++ toString (point - 1)

/-- The text of `m * 2 ^ q`. -/
def magnitude (l : NumberLayout) (m : Nat) (q : Int) : String :=
  if m = 0 then "0" ++ l.wholeEnding
  else
    let (digits, exponent) := ((RoundingRange.of m q).shortest l.tie).significant
    let point := digits.length + exponent
    if l.isPositional point then l.positional digits point else l.withExponent digits point

/-- The text of a number. -/
def write (l : NumberLayout) (x : Float) : String :=
  let signed (negative : Bool) (s : String) := if negative then "-" ++ s else s
  match Binary64.ofFloat x with
  | .finite negative m q => signed negative (l.magnitude m q)
  | .infinite negative => signed negative l.infinity
  | .nan => l.notANumber

/-- The plain way: never with an exponent, and a whole number without a point. -/
def plain : NumberLayout where
  tie := .up
  isPositional := fun _ => true
  wholeEnding := ""
  exponentPlus := ""
  infinity := "inf"
  notANumber := "NaN"

/-- The way of JSON texts: a point in every number without an exponent, and an exponent with its
sign for numbers from 10 ^ 16 on and below 10 ^ -5. There is nothing for what is no number. -/
def json : NumberLayout where
  tie := .even
  isPositional := fun point => -5 < point && point ≤ 16
  wholeEnding := ".0"
  exponentPlus := "+"
  infinity := "null"
  notANumber := "null"

end NumberLayout

end EntitlementAuthority
