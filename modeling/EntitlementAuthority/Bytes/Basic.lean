/-!
# Bytes

* `Bytes` — a finite sequence of bytes.
* `Bytes.toHex`, `Bytes.ofHex?` — lower-case hexadecimal text.
* `Bytes.ofText`, `Bytes.toText?` — the UTF-8 form of text; `Bytes.toText?_ofText` reads it back.
* `bigEndian` — the low bytes of a number, most significant first.
-/

namespace EntitlementAuthority

/-- A finite sequence of bytes. -/
abbrev Bytes := List UInt8

namespace Bytes

/-- A lower-case hexadecimal digit. -/
def hexDigit (n : Nat) : Char :=
  if n < 10 then Char.ofNat ('0'.toNat + n) else Char.ofNat ('a'.toNat + (n - 10))

/-- Two hexadecimal digits for every byte. -/
def toHex (bytes : Bytes) : String :=
  String.ofList (bytes.flatMap fun b => [hexDigit (b.toNat / 16), hexDigit (b.toNat % 16)])

/-- The value of a hexadecimal digit of either case. -/
def hexValue? (c : Char) : Option Nat :=
  if c.isDigit then some (c.toNat - '0'.toNat)
  else if 'a' ≤ c ∧ c ≤ 'f' then some (c.toNat - 'a'.toNat + 10)
  else if 'A' ≤ c ∧ c ≤ 'F' then some (c.toNat - 'A'.toNat + 10)
  else none

/-- Reads pairs of hexadecimal digits. -/
def ofHexDigits? : List Char → Option Bytes
  | [] => some []
  | [_] => none
  | h :: l :: rest => do
    let high ← hexValue? h
    let low ← hexValue? l
    let bytes ← ofHexDigits? rest
    some (UInt8.ofNat (high * 16 + low) :: bytes)

/-- Reads hexadecimal text. -/
def ofHex? (s : String) : Option Bytes :=
  ofHexDigits? s.toList

/-- The UTF-8 form of text. -/
def ofText (s : String) : Bytes :=
  s.toList.flatMap String.utf8EncodeChar

/-- The text whose UTF-8 form the bytes are, if there is one. -/
def toText? (bytes : Bytes) : Option String :=
  String.fromUTF8? ⟨bytes.toArray⟩

/-- The UTF-8 form of a text is read back. -/
theorem toText?_ofText (s : String) : toText? (ofText s) = some s := by
  have hbytes : (⟨(ofText s).toArray⟩ : ByteArray) = s.toByteArray := by
    rw [← String.utf8Encode_toList, List.utf8Encode]
    exact ByteArray.ext List.data_toByteArray.symm
  unfold toText? String.fromUTF8?
  rw [hbytes, dif_pos s.isValidUTF8]
  rfl

theorem ofText_injective : Function.Injective ofText := by
  intro s s' h
  have hread := congrArg toText? h
  rwa [toText?_ofText, toText?_ofText, Option.some.injEq] at hread

/-- The `count` low bytes of `n`, most significant first. -/
def bigEndian (count n : Nat) : Bytes :=
  match count with
  | 0 => []
  | k + 1 => UInt8.ofNat (n / Nat.pow 256 k) :: bigEndian k n

/-- The number whose bytes, most significant first, are given. -/
def ofBigEndian (bytes : Bytes) : Nat :=
  bytes.foldl (fun n b => n * 256 + b.toNat) 0

@[simp] theorem length_bigEndian (count n : Nat) : (bigEndian count n).length = count := by
  induction count with
  | zero => rfl
  | succ k ih => simp [bigEndian, ih]

@[simp] theorem ofText_empty : ofText "" = [] := by
  simp [ofText]

theorem ofText_append (s t : String) : ofText (s ++ t) = ofText s ++ ofText t := by
  simp [ofText, String.toList_append]

end Bytes

end EntitlementAuthority
