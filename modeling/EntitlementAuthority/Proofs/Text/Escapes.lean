import EntitlementAuthority.Proofs.Text.Percent
import EntitlementAuthority.Proofs.Text.Separated
import Mathlib.Data.List.Basic

/-!
# Escapes

Segments are encoded as URLs are, and then every `%24` is turned back into `$`. A `%` of the segment
is an escape by then, so that nothing but the escape of a `$` is turned back, and no escape is cut.

* `Text.urlEncode` — the bytes of a text, all but a few of them escaped.
* `Text.encodeSegment_eq_replaceAll` — what is put for `%24` in it.
* `Text.IsEscaped` — characters that stand for themselves, and escapes.
* `Text.isEscaped_encodeSegment` — an encoded segment is nothing else.
-/

namespace EntitlementAuthority.Text

variable {c : Char} {cs cs' : List Char} {b : UInt8}

/-! ### URL encoding -/

/-- Letters, digits and the signs that no URL escapes. -/
def isUnreserved (c : Char) : Bool :=
  c.isAlphanum || c == '-' || c == '.' || c == '_' || c == '~'

/-- A byte in a URL. -/
def urlEncodeByte (b : UInt8) : List Char :=
  if isUnreserved (Char.ofNat b.toNat) then [Char.ofNat b.toNat] else percentByte b

/-- Text in a URL: every byte of its UTF-8 form, escaped unless it is unreserved. -/
def urlEncode (s : String) : String :=
  String.ofList ((Bytes.ofText s).flatMap urlEncodeByte)

/-- The escape of a `$`. -/
def dollarEscape : String := "%24"

/-- A byte in a URL in which a `$` stands for itself. -/
def keepDollar (b : UInt8) : List Char :=
  if b = 0x24 then ['$'] else urlEncodeByte b

theorem isPlain_eq (c : Char) : isPlain c = (isUnreserved c || c == '$') :=
  rfl

theorem ne_percent_of_isUnreserved (h : isUnreserved c = true) : c ≠ '%' := by
  rintro rfl
  exact absurd h (by decide)

/-- What is so of every number below 256 is so of every byte. -/
theorem forall_byte {p : UInt8 → Bool} (h : ∀ n : Fin 256, p (UInt8.ofNat n.val) = true)
    (b : UInt8) : p b = true := by
  have hb := h ⟨b.toNat, b.toNat_lt⟩
  rwa [UInt8.ofNat_toNat] at hb

theorem toNat_of_isPlain (h : isPlain c = true) : c.toNat < 128 := by
  unfold isPlain Char.isAlphanum Char.isAlpha Char.isUpper Char.isLower Char.isDigit at h
  simp only [Bool.or_eq_true, Bool.and_eq_true, decide_eq_true_eq, beq_iff_eq,
    UInt32.le_iff_toNat_le, Char.toNat_val] at h
  rcases h with (((((((⟨-, h⟩ | ⟨-, h⟩) | ⟨-, h⟩) | rfl) | rfl) | rfl) | rfl) | rfl)
  any_goals decide
  all_goals exact Nat.lt_of_le_of_lt h (by decide)

theorem keepDollar_of_large (h : 128 ≤ b.toNat) : keepDollar b = percentByte b := by
  have hb := forall_byte (p := fun b => decide (128 ≤ b.toNat → keepDollar b = percentByte b))
    (by decide +kernel) b
  exact of_decide_eq_true hb h

theorem encodeChar_of_small (h : c.toNat < 128) :
    encodeChar c = (String.utf8EncodeChar c).flatMap keepDollar := by
  have hall : ∀ n : Fin 128, encodeChar (Char.ofNat n.val) =
      (String.utf8EncodeChar (Char.ofNat n.val)).flatMap keepDollar := by decide +kernel
  have hc := hall ⟨c.toNat, h⟩
  rwa [Char.ofNat_toNat] at hc

/-- A character is encoded byte by byte. -/
theorem encodeChar_eq (c : Char) : encodeChar c = (String.utf8EncodeChar c).flatMap keepDollar := by
  by_cases hsmall : c.toNat < 128
  · exact encodeChar_of_small hsmall
  · have hplain : ¬ isPlain c = true := fun h => hsmall (toNat_of_isPlain h)
    rw [encodeChar, if_neg hplain]
    refine List.flatMap_congr fun b hb => (keepDollar_of_large ?_).symm
    rcases Bytes.toNat_of_mem_utf8EncodeChar hb with hvalue | hlarge
    · exact hvalue ▸ Nat.le_of_not_lt hsmall
    · exact hlarge

theorem encodeSegment_toList (s : String) :
    (encodeSegment s).toList = (Bytes.ofText s).flatMap keepDollar := by
  rw [encodeSegment, String.toList_ofList, Bytes.ofText, List.flatMap_assoc]
  exact List.flatMap_congr fun c _ => encodeChar_eq c

/-! ### What is turned back -/

theorem upperHexDigit_ne_percent {n : Nat} (h : n < 16) : upperHexDigit n ≠ '%' := by
  revert n
  decide

theorem percentByte_dollar : percentByte 0x24 = dollarEscape.toList := by
  decide

theorem percentByte_injective : Function.Injective percentByte := by
  intro b b' h
  have hdecode := congrArg decodePercent h
  rw [← List.append_nil (percentByte b), ← List.append_nil (percentByte b'),
    decodePercent_percentByte, decodePercent_percentByte] at hdecode
  exact (List.cons.inj hdecode).1

/-- The escape of another byte does not begin as that of a `$`. -/
theorem not_prefix_percentByte (hb : b ≠ 0x24) (cs : List Char) :
    ¬ dollarEscape.toList <+: percentByte b ++ cs := by
  rw [← percentByte_dollar]
  rintro ⟨rest, hrest⟩
  exact hb (percentByte_injective (List.append_inj hrest rfl).1).symm

/-- What does not begin an escape stays. -/
theorem replaceChars_cons_of_ne (hc : c ≠ '%') (cs : List Char) :
    replaceChars dollarEscape.toList ['$'] (c :: cs) =
      c :: replaceChars dollarEscape.toList ['$'] cs := by
  refine replaceChars_cons_of_unmatched (by decide) ?_
  rintro ⟨rest, hrest⟩
  exact hc (List.cons.inj hrest).1.symm

/-- An escape of another byte stays. -/
theorem replaceChars_percentByte (hb : b ≠ 0x24) (cs : List Char) :
    replaceChars dollarEscape.toList ['$'] (percentByte b ++ cs) =
      percentByte b ++ replaceChars dollarEscape.toList ['$'] cs := by
  have hbyte := b.toNat_lt
  -- The escape of a `$` begins neither at the `%` nor at one of the digits behind it.
  refine (replaceChars_cons_of_unmatched (by decide) (not_prefix_percentByte hb cs)).trans ?_
  refine congrArg ('%' :: ·) ?_
  refine (replaceChars_cons_of_ne (upperHexDigit_ne_percent (by omega)) _).trans ?_
  exact congrArg _ (replaceChars_cons_of_ne (upperHexDigit_ne_percent (by omega)) _)

/-- **A `$` that was escaped is turned back**, and every other byte stays as it was encoded. -/
theorem replaceChars_urlEncodeByte (bytes : Bytes) :
    replaceChars dollarEscape.toList ['$'] (bytes.flatMap urlEncodeByte) =
      bytes.flatMap keepDollar := by
  induction bytes with
  | nil => exact replaceChars_nil (by decide)
  | cons b bytes ih =>
    rw [List.flatMap_cons, List.flatMap_cons, ← ih]
    by_cases hdollar : b = 0x24
    · subst hdollar
      have hescape : urlEncodeByte 0x24 = dollarEscape.toList := by decide
      rw [hescape, replaceChars_append_of_pattern (by decide)]
      rfl
    · rw [keepDollar, if_neg hdollar, urlEncodeByte]
      split
      · rename_i hunreserved
        exact replaceChars_cons_of_ne (ne_percent_of_isUnreserved hunreserved) _
      · exact replaceChars_percentByte hdollar _

/-- **A segment is encoded as a URL is**, and then every `%24` is turned back into `$`. -/
theorem encodeSegment_eq_replaceAll (s : String) :
    encodeSegment s = replaceAll dollarEscape "$" (urlEncode s) := by
  have hencoded : (urlEncode s).toList = (Bytes.ofText s).flatMap urlEncodeByte :=
    String.toList_ofList
  rw [← String.toList_inj, encodeSegment_toList, ← replaceChars_urlEncodeByte, ← hencoded]
  exact String.toList_ofList.symm

/-! ### Encoded segments -/

/-- A hexadecimal digit as escapes have them. -/
def isEscapeDigit (c : Char) : Bool :=
  c.isDigit || ('A' ≤ c && c ≤ 'F')

/-- Characters that stand for themselves, and escapes of two digits. -/
inductive IsEscaped : List Char → Prop
  | nil : IsEscaped []
  | plain {c : Char} {cs : List Char} (h : isPlain c = true) (hcs : IsEscaped cs) :
      IsEscaped (c :: cs)
  | escape {high low : Char} {cs : List Char} (hhigh : isEscapeDigit high = true)
      (hlow : isEscapeDigit low = true) (hcs : IsEscaped cs) : IsEscaped ('%' :: high :: low :: cs)

theorem isEscapeDigit_upperHexDigit {n : Nat} (h : n < 16) :
    isEscapeDigit (upperHexDigit n) = true := by
  revert n
  decide

theorem IsEscaped.append (h : IsEscaped cs) (h' : IsEscaped cs') : IsEscaped (cs ++ cs') := by
  induction h with
  | nil => exact h'
  | plain hc _ ih => exact .plain hc ih
  | escape hhigh hlow _ ih => exact .escape hhigh hlow ih

theorem isEscaped_keepDollar (b : UInt8) : IsEscaped (keepDollar b) := by
  have hb := b.toNat_lt
  rw [keepDollar]
  split
  · exact .plain (by decide) .nil
  · rw [urlEncodeByte]
    split
    · rename_i hunreserved
      exact .plain (by rw [isPlain_eq, hunreserved, Bool.true_or]) .nil
    · exact .escape (isEscapeDigit_upperHexDigit (by omega))
        (isEscapeDigit_upperHexDigit (by omega)) .nil

/-- **An encoded segment consists of characters that stand for themselves and of escapes.** -/
theorem isEscaped_encodeSegment (s : String) : IsEscaped (encodeSegment s).toList := by
  rw [encodeSegment_toList]
  induction Bytes.ofText s with
  | nil => exact .nil
  | cons b bytes ih =>
    rw [List.flatMap_cons]
    exact (isEscaped_keepDollar b).append ih

/-- A segment is read back from its encoding. -/
theorem toText?_decodePercent_encodeSegment (s : String) :
    Bytes.toText? (decodePercent (encodeSegment s).toList) = some s := by
  rw [decodePercent_encodeSegment, Bytes.toText?_ofText]

end EntitlementAuthority.Text
