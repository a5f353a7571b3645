import EntitlementAuthority.Proofs.Bytes.Text
import EntitlementAuthority.Text.Percent

/-!
# Reading encoded segments

An encoded segment can be decoded, so different segments are encoded differently.

* `Text.decodePercent` — the bytes that a percent-encoded text stands for.
* `Text.decodePercent_encodeSegment` — an encoded segment stands for the UTF-8 form of the segment.
* `Text.encodeSegment_injective` — different segments are encoded differently.
-/

namespace EntitlementAuthority.Text

open Bytes (hexValue?)

/-- The bytes that a percent-encoded text stands for: two digits behind a `%` are a byte, and every
other character is its UTF-8 form. -/
def decodePercent : List Char → Bytes
  | [] => []
  | '%' :: high :: low :: rest =>
    UInt8.ofNat ((hexValue? high).getD 0 * 16 + (hexValue? low).getD 0) :: decodePercent rest
  | c :: rest => String.utf8EncodeChar c ++ decodePercent rest

theorem hexValue?_upperHexDigit {n : Nat} (h : n < 16) :
    hexValue? (upperHexDigit n) = some n := by
  revert n
  decide

theorem decodePercent_percentByte (b : UInt8) (rest : List Char) :
    decodePercent (percentByte b ++ rest) = b :: decodePercent rest := by
  have hb : b.toNat < 256 := UInt8.toNat_lt b
  have hhigh : hexValue? (upperHexDigit (b.toNat / 16)) = some (b.toNat / 16) :=
    hexValue?_upperHexDigit (by omega)
  have hlow : hexValue? (upperHexDigit (b.toNat % 16)) = some (b.toNat % 16) :=
    hexValue?_upperHexDigit (by omega)
  show UInt8.ofNat ((hexValue? (upperHexDigit (b.toNat / 16))).getD 0 * 16 +
      (hexValue? (upperHexDigit (b.toNat % 16))).getD 0) :: decodePercent rest = _
  rw [hhigh, hlow, Option.getD_some, Option.getD_some, Nat.div_add_mod', UInt8.ofNat_toNat]

theorem decodePercent_percentBytes (bytes : Bytes) (rest : List Char) :
    decodePercent (bytes.flatMap percentByte ++ rest) = bytes ++ decodePercent rest := by
  induction bytes with
  | nil => rfl
  | cons b bytes ih =>
    rw [List.flatMap_cons, List.append_assoc, decodePercent_percentByte, ih, List.cons_append]

theorem decodePercent_cons {c : Char} (hc : c ≠ '%') (rest : List Char) :
    decodePercent (c :: rest) = String.utf8EncodeChar c ++ decodePercent rest := by
  rw [decodePercent]
  rintro high low rest' rfl
  exact absurd rfl hc

theorem decodePercent_encodeChar (c : Char) (rest : List Char) :
    decodePercent (encodeChar c ++ rest) = String.utf8EncodeChar c ++ decodePercent rest := by
  unfold encodeChar
  split
  · rename_i hplain
    have hc : c ≠ '%' := by
      rintro rfl
      exact absurd hplain (by decide)
    exact decodePercent_cons hc rest
  · exact decodePercent_percentBytes _ rest

/-- **An encoded segment stands for the UTF-8 form of the segment.** -/
theorem decodePercent_encodeSegment (s : String) :
    decodePercent (encodeSegment s).toList = Bytes.ofText s := by
  rw [encodeSegment, String.toList_ofList, Bytes.ofText]
  induction s.toList with
  | nil => rfl
  | cons c cs ih => rw [List.flatMap_cons, List.flatMap_cons, decodePercent_encodeChar, ih]

theorem encodeSegment_injective : Function.Injective encodeSegment := by
  intro s t h
  refine Bytes.ofText_injective ?_
  rw [← decodePercent_encodeSegment, ← decodePercent_encodeSegment, h]

end EntitlementAuthority.Text
