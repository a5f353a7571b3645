/-!
# Percent-encoding

URL encoding of one path segment. Letters, digits, `-`, `.`, `_` and `~` stand for themselves,
and so does `$`, so that clients can still put their own values for variables such as
`$releasever`. Every other byte of the UTF-8 form is written as `%` and two upper-case
hexadecimal digits.

* `encodeSegment` — the encoding.
-/

namespace EntitlementAuthority.Text

/-- The characters that stand for themselves in an encoded segment. -/
def isPlain (c : Char) : Bool :=
  c.isAlphanum || c == '-' || c == '.' || c == '_' || c == '~' || c == '$'

/-- An upper-case hexadecimal digit. -/
def upperHexDigit (n : Nat) : Char :=
  if n < 10 then Char.ofNat ('0'.toNat + n) else Char.ofNat ('A'.toNat + (n - 10))

/-- A byte as `%` and two digits. -/
def percentByte (b : UInt8) : List Char :=
  ['%', upperHexDigit (b.toNat / 16), upperHexDigit (b.toNat % 16)]

/-- One character of a segment, encoded. -/
def encodeChar (c : Char) : List Char :=
  if isPlain c then [c] else (String.utf8EncodeChar c).flatMap percentByte

/-- A path segment, encoded. -/
def encodeSegment (segment : String) : String :=
  String.ofList (segment.toList.flatMap encodeChar)

end EntitlementAuthority.Text
