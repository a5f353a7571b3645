/-!
# Decimal integers in text

Reading whole numbers that have to fit a word: ASCII digits, at least one, leading zeros
allowed, a plus sign allowed in front.

* `readNatBelow?` — a natural number below a bound.
* `word64Bound` — the bound of 64-bit identifiers.
* `readInt64?` — a signed 64-bit number.
* `toString_injective` — a natural number is known by its decimal form.
-/

namespace EntitlementAuthority.Text

/-- The value of a row of ASCII digits read after `acc`; `none` at any other character. -/
def digitsValue? (acc : Nat) : List Char → Option Nat
  | [] => some acc
  | c :: cs =>
    if c.isDigit then digitsValue? (acc * 10 + (c.toNat - '0'.toNat)) cs else none

/-- The value of one or more ASCII digits. -/
def digits? : List Char → Option Nat
  | [] => none
  | cs => digitsValue? 0 cs

/-- A natural number below `bound`, an optional plus sign in front. -/
def readNatBelow? (bound : Nat) (s : String) : Option Nat :=
  let cs := match s.toList with
    | '+' :: rest => rest
    | cs => cs
  (digits? cs).filter (· < bound)

/-- Identifiers and arcs are 64-bit words. -/
def word64Bound : Nat := Nat.pow 2 64

/-- A 64-bit identifier. -/
def readWord64? (s : String) : Option Nat :=
  readNatBelow? word64Bound s

/-- A signed 64-bit number, an optional sign in front. -/
def readInt64? (s : String) : Option Int :=
  match s.toList with
  | '-' :: rest => ((digits? rest).filter (· ≤ Nat.pow 2 63)).map fun n => -(n : Int)
  | '+' :: rest => ((digits? rest).filter (· < Nat.pow 2 63)).map Int.ofNat
  | cs => ((digits? cs).filter (· < Nat.pow 2 63)).map Int.ofNat

theorem toString_injective {m n : Nat} (h : toString m = toString n) : m = n := by
  rw [Nat.toString_eq_ofList_toDigits, Nat.toString_eq_ofList_toDigits] at h
  have hdigits : Nat.toDigits 10 m = Nat.toDigits 10 n := String.ofList_injective h
  rw [← Nat.ofDigitChars_ten_toDigits (n := m), hdigits, Nat.ofDigitChars_ten_toDigits]

end EntitlementAuthority.Text
