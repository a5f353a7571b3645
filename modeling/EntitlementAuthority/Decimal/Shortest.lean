import EntitlementAuthority.Decimal.Binary64

/-!
# The shortest decimal

The shortest decimal of a floating point number is the one with the fewest digits that still
rounds to it; of several it is the nearest.

* `Decimal` — a whole number times a power of ten.
* `RoundingRange` — the numbers that round to a floating point number.
* `RoundingRange.shortest` — the shortest decimal among them.
-/

namespace EntitlementAuthority

/-- The number `digits * 10 ^ exponent`. -/
structure Decimal where
  digits : Nat
  exponent : Int
deriving DecidableEq, Repr

/-- Which of two decimals stands for a number halfway between them. -/
inductive Tie where
  /-- The one with an even last digit. -/
  | even
  /-- The greater one. -/
  | up
deriving DecidableEq, Repr

/-- The numbers that round to `value / unit`: those between `low / unit` and `high / unit`. -/
structure RoundingRange where
  low : Nat
  value : Nat
  high : Nat
  unit : Nat
  /-- Whether the ends are among them. -/
  closed : Bool
deriving DecidableEq, Repr

namespace RoundingRange

/-- The range of `m * 2 ^ q`. It ends halfway to the neighbours, of which the lower one is nearer
when `m` is the least; a tie rounds to an even `m`. -/
def of (m : Nat) (q : Int) : RoundingRange :=
  let below := if m = Binary64.leastSignificand ∧ q ≠ Binary64.leastExponent then 1 else 2
  let scale := Nat.pow 2 (q - 2).toNat
  { low := (4 * m - below) * scale
    value := 4 * m * scale
    high := (4 * m + 2) * scale
    unit := Nat.pow 2 (2 - q).toNat
    closed := m % 2 = 0 }

/-- The range in units of `10 ^ k`. -/
def scaled (r : RoundingRange) (k : Int) : RoundingRange :=
  let times := Nat.pow 10 (-k).toNat
  { r with
    low := r.low * times
    value := r.value * times
    high := r.high * times
    unit := r.unit * Nat.pow 10 k.toNat }

/-- Whether a whole number is in the range. -/
def contains (r : RoundingRange) (n : Nat) : Bool :=
  if r.closed then r.low ≤ n * r.unit && n * r.unit ≤ r.high
  else r.low < n * r.unit && n * r.unit < r.high

/-- The power of ten that the value reaches: the `e` with `10 ^ e ≤ value / unit < 10 ^ (e + 1)`,
for a value above zero. -/
def magnitude (r : RoundingRange) : Int :=
  if r.unit ≤ r.value then ((Nat.toDigits 10 (r.value / r.unit)).length : Int) - 1
  else -((Nat.toDigits 10 ((r.unit + r.value - 1) / r.value - 1)).length : Int)

/-- The whole number below the value. -/
def floor (r : RoundingRange) : Nat :=
  r.value / r.unit

/-- Whether the value is written as the whole number above it, if that and the one below it are
both in the range. -/
def prefersAbove (tie : Tie) (r : RoundingRange) : Bool :=
  match compare (2 * r.value) ((2 * r.floor + 1) * r.unit) with
  | .lt => false
  | .gt => true
  | .eq => tie == .up || r.floor % 2 == 1

/-- The whole number in the range that is nearest to the value, if there is one. -/
def nearest? (tie : Tie) (r : RoundingRange) : Option Nat :=
  match r.contains r.floor, r.contains (r.floor + 1) with
  | true, true => some (if r.prefersAbove tie then r.floor + 1 else r.floor)
  | true, false => some r.floor
  | false, true => some (r.floor + 1)
  | false, false => none

/-- The decimal with `n` digits in the range, if there is one. -/
def withDigits? (tie : Tie) (r : RoundingRange) (n : Nat) : Option Decimal :=
  let k := r.magnitude - n + 1
  ((r.scaled k).nearest? tie).map fun digits => ⟨digits, k⟩

/-- So many digits always do. -/
def enoughDigits : Nat := 17

/-- The decimal in the range with the fewest digits. -/
def shortest (tie : Tie) (r : RoundingRange) : Decimal :=
  ((List.range' 1 enoughDigits).findSome? (r.withDigits? tie)).getD ⟨0, 0⟩

end RoundingRange

end EntitlementAuthority
