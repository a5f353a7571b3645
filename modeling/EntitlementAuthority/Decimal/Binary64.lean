/-!
# Floating point numbers taken apart

* `Binary64` — what a double-precision number is: a whole number times a power of two, an
  infinity, or no number.
-/

namespace EntitlementAuthority

/-- What a double-precision number is. -/
inductive Binary64 where
  /-- The number `m * 2 ^ q`, or the same below zero. -/
  | finite (negative : Bool) (m : Nat) (q : Int)
  | infinite (negative : Bool)
  | nan
deriving DecidableEq, Repr

namespace Binary64

/-- The least exponent; very small numbers have it too. -/
def leastExponent : Int := -1074

/-- The least `m` of a number whose exponent is not the least. -/
def leastSignificand : Nat := Nat.pow 2 52

/-- Takes the 64 bits of a number apart: a sign, 11 bits of exponent, 52 bits of fraction. -/
def ofBits (bits : Nat) : Binary64 :=
  let negative := bits / Nat.pow 2 63 % 2 = 1
  let exponent := bits / Nat.pow 2 52 % Nat.pow 2 11
  let fraction := bits % Nat.pow 2 52
  if exponent = Nat.pow 2 11 - 1 then
    if fraction = 0 then infinite negative else nan
  else if exponent = 0 then finite negative fraction leastExponent
  else finite negative (leastSignificand + fraction) (leastExponent + (exponent - 1 : Nat))

/-- Takes a number apart. -/
def ofFloat (x : Float) : Binary64 :=
  ofBits x.toBits.toNat

end Binary64

end EntitlementAuthority
