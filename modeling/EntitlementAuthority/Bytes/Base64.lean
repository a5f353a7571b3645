import EntitlementAuthority.Bytes.Basic

/-!
# Base64

The standard alphabet with padding. Reading accepts exactly what writing produces: padding is
required and the bits that the last group does not use must be zero.

* `Base64.encode`, `Base64.decode?` — the two directions.
* `Base64.decodeJoined?` — reads texts that were written one after the other.
-/

namespace EntitlementAuthority.Base64

/-- The digit for a value below 64. -/
def digit (n : Nat) : Char :=
  if n < 26 then Char.ofNat ('A'.toNat + n)
  else if n < 52 then Char.ofNat ('a'.toNat + (n - 26))
  else if n < 62 then Char.ofNat ('0'.toNat + (n - 52))
  else if n = 62 then '+'
  else '/'

/-- The value of a digit. -/
def value? (c : Char) : Option Nat :=
  if 'A' ≤ c ∧ c ≤ 'Z' then some (c.toNat - 'A'.toNat)
  else if 'a' ≤ c ∧ c ≤ 'z' then some (c.toNat - 'a'.toNat + 26)
  else if '0' ≤ c ∧ c ≤ '9' then some (c.toNat - '0'.toNat + 52)
  else if c = '+' then some 62
  else if c = '/' then some 63
  else none

/-- Four digits for every three bytes; a shorter last group is padded. -/
def encodeChars : Bytes → List Char
  | [] => []
  | [a] =>
    [digit (a.toNat / 4), digit (a.toNat % 4 * 16), '=', '=']
  | [a, b] =>
    [digit (a.toNat / 4), digit (a.toNat % 4 * 16 + b.toNat / 16), digit (b.toNat % 16 * 4), '=']
  | a :: b :: c :: rest =>
    digit (a.toNat / 4) :: digit (a.toNat % 4 * 16 + b.toNat / 16)
      :: digit (b.toNat % 16 * 4 + c.toNat / 64) :: digit (c.toNat % 64) :: encodeChars rest

/-- The base64 text of bytes, on one line. -/
def encode (bytes : Bytes) : String :=
  String.ofList (encodeChars bytes)

/-- A last group with padding: one or two bytes. -/
def decodeLast? : List Char → Option Bytes
  | [a, b, '=', '='] => do
    let a ← value? a
    let b ← value? b
    if b % 16 = 0 then some [UInt8.ofNat (a * 4 + b / 16)] else none
  | [a, b, c, '='] => do
    let a ← value? a
    let b ← value? b
    let c ← value? c
    if c % 4 = 0 then
      some [UInt8.ofNat (a * 4 + b / 16), UInt8.ofNat (b % 16 * 16 + c / 4)]
    else none
  | _ => none

/-- A full group: three bytes. -/
def decodeGroup? (a b c d : Char) : Option Bytes := do
  let a ← value? a
  let b ← value? b
  let c ← value? c
  let d ← value? d
  some [UInt8.ofNat (a * 4 + b / 16), UInt8.ofNat (b % 16 * 16 + c / 4),
    UInt8.ofNat (c % 4 * 64 + d)]

/-- Reads groups of four digits, each of which may be padded. -/
def decodeGroups? : List Char → Option Bytes
  | [] => some []
  | a :: b :: c :: d :: rest => do
    let group ← if d = '=' then decodeLast? [a, b, c, d] else decodeGroup? a b c d
    let bytes ← decodeGroups? rest
    some (group ++ bytes)
  | _ => none

/-- The bytes of base64 texts that stand one after the other. -/
def decodeJoined? (s : String) : Option Bytes :=
  decodeGroups? s.toList

/-- Reads groups of four digits, of which only the last may be padded. -/
def decodeChars? : List Char → Option Bytes
  | [] => some []
  | a :: b :: c :: d :: rest =>
    if d = '=' then
      if rest.isEmpty then decodeLast? [a, b, c, d] else none
    else do
      let group ← decodeGroup? a b c d
      let bytes ← decodeChars? rest
      some (group ++ bytes)
  | _ => none

/-- The bytes whose base64 text is given. -/
def decode? (s : String) : Option Bytes :=
  decodeChars? s.toList

end EntitlementAuthority.Base64
