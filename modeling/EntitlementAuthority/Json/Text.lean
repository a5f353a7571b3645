import EntitlementAuthority.Json.Lexer

/-!
# Texts and numbers in JSON

* `Json.escape` — how text is written in a string: escapes for quotes, backslashes and control
  characters, everything else as it is.
* `Json.unescape?` — the text that a string stands for.
* `Json.ofText`, `Json.text?` — strings as text.
* `Json.ofInt`, `Json.int?` — whole numbers.
-/

namespace EntitlementAuthority.Json

/-! ### Strings -/

/-- A lower-case hexadecimal digit as a byte. -/
def hexByte (n : Nat) : UInt8 :=
  UInt8.ofNat (Bytes.hexDigit n).toNat

/-- How one character is written. -/
def escapeChar (c : Char) : Bytes :=
  if c = '"' then [0x5C, 0x22]
  else if c = '\\' then [0x5C, 0x5C]
  else if c.toNat = 0x08 then [0x5C, 0x62]
  else if c.toNat = 0x09 then [0x5C, 0x74]
  else if c.toNat = 0x0A then [0x5C, 0x6E]
  else if c.toNat = 0x0C then [0x5C, 0x66]
  else if c.toNat = 0x0D then [0x5C, 0x72]
  else if c.toNat < 0x20 then
    [0x5C, 0x75, 0x30, 0x30, hexByte (c.toNat / 16), hexByte (c.toNat % 16)]
  else String.utf8EncodeChar c

/-- How text is written between quotes. -/
def escape (s : String) : Bytes :=
  s.toList.flatMap escapeChar

/-- The value of four hexadecimal digits. -/
def hexWord (h1 h2 h3 h4 : UInt8) : Nat :=
  [h1, h2, h3, h4].foldl
    (fun n b => n * 16 + (Bytes.hexValue? (Char.ofNat b.toNat)).getD 0) 0

/-- The byte that an escape of two characters stands for. -/
def shortEscape (b : UInt8) : UInt8 :=
  if b = 0x62 then 0x08
  else if b = 0x66 then 0x0C
  else if b = 0x6E then 0x0A
  else if b = 0x72 then 0x0D
  else if b = 0x74 then 0x09
  else b

/-- The UTF-8 form of a code point. -/
def codePointBytes (n : Nat) : Bytes :=
  String.utf8EncodeChar (Char.ofNat n)

/-- The first half of a pair of escapes for one code point. -/
def isLeadingHalf (n : Nat) : Bool :=
  0xD800 ≤ n && n < 0xDC00

/-- The second half of a pair of escapes for one code point. -/
def isTrailingHalf (n : Nat) : Bool :=
  0xDC00 ≤ n && n < 0xE000

/-- The UTF-8 form of the text that a string stands for. An escaped half of a code point needs
its other half. -/
def unescapeBytes? : Bytes → Option Bytes
  | [] => some []
  | b :: rest =>
    if b ≠ 0x5C then (unescapeBytes? rest).map (b :: ·)
    else
      match rest with
      | [] => none
      | c :: rest =>
        if c ≠ 0x75 then (unescapeBytes? rest).map (shortEscape c :: ·)
        else
          match rest with
          | h1 :: h2 :: h3 :: h4 :: rest =>
            let n := hexWord h1 h2 h3 h4
            if isTrailingHalf n then none
            else if isLeadingHalf n then
              match rest with
              | e :: u :: l1 :: l2 :: l3 :: l4 :: rest =>
                let m := hexWord l1 l2 l3 l4
                if e = 0x5C ∧ u = 0x75 ∧ isTrailingHalf m then
                  (unescapeBytes? rest).map
                    (codePointBytes (0x10000 + (n - 0xD800) * 0x400 + (m - 0xDC00)) ++ ·)
                else none
              | _ => none
            else (unescapeBytes? rest).map (codePointBytes n ++ ·)
          | _ => none

/-- The text that a string stands for. -/
def unescape? (raw : Bytes) : Option String := do
  let bytes ← unescapeBytes? raw
  Bytes.toText? bytes

/-- Text as a value. -/
def ofText (s : String) : Json :=
  .string (escape s)

/-- The text of a value. -/
def text? : Json → Option String
  | .string raw => unescape? raw
  | _ => none

/-! ### Numbers -/

/-- A whole number as a value. -/
def ofInt (n : Int) : Json :=
  .number (Bytes.ofText (toString n))

/-- The number that ASCII digits stand for; `none` at any other byte. -/
def digitsValue? (digits : Bytes) : Option Nat :=
  if digits.all isDigit then some (digits.foldl (fun n b => n * 10 + (b.toNat - 0x30)) 0)
  else none

/-- The value of a number written without fraction and exponent; a zero with a sign is not a
whole number. -/
def int? : Json → Option Int
  | .number (b :: digits) =>
    if b = 0x2D then
      match digitsValue? digits with
      | some 0 => none
      | some n => some (-n)
      | none => none
    else (digitsValue? (b :: digits)).map Int.ofNat
  | _ => none

/-- A whole number that is at least `low` and below `high`. -/
def intBetween? (low high : Int) (v : Json) : Option Int :=
  v.int?.filter fun n => low ≤ n && n < high

/-- A signed number of 64 bits. -/
def int64? (v : Json) : Option Int :=
  v.intBetween? (-(Nat.pow 2 63 : Int)) (Nat.pow 2 63)

/-- A natural number below a bound. -/
def natBelow? (bound : Nat) (v : Json) : Option Nat :=
  (v.intBetween? 0 bound).map Int.toNat

/-! ### Other values -/

/-- A truth value. -/
def bool? : Json → Option Bool
  | .bool b => some b
  | _ => none

/-- A value of some kind, or null for none. -/
def optional? {α : Type} (f : Json → Option α) : Json → Option (Option α)
  | .null => some none
  | v => (f v).map some

/-- The items of an array. -/
def listOf? {α : Type} (f : Json → Option α) : Json → Option (List α)
  | .array items => items.mapM f
  | _ => none

end EntitlementAuthority.Json
