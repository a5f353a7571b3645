import EntitlementAuthority.Bytes.Base64
import EntitlementAuthority.Text.Blank

/-!
# Base64, written and read back

* `Base64.decode?_encode` — bytes are read back from their base64 text.
* `Base64.IsPlain` — what the characters of such a text have in common.
-/

namespace EntitlementAuthority.Base64

/-! ### Digits -/

theorem value?_digit {n : Nat} (h : n < 64) : value? (digit n) = some n := by
  have hall : ∀ m : Fin 64, value? (digit m) = some m.val := by decide
  exact hall ⟨n, h⟩

/-- Neither a dash nor white space. -/
def IsPlain (c : Char) : Prop :=
  c ≠ '-' ∧ Text.isWhiteSpace c = false

instance (c : Char) : Decidable (IsPlain c) :=
  inferInstanceAs (Decidable (_ ∧ _))

theorem isPlain_digit (n : Nat) : IsPlain (digit n) ∧ digit n ≠ '=' := by
  have hall : ∀ m : Fin 64, IsPlain (digit m) ∧ digit m ≠ '=' := by decide
  by_cases h : n < 64
  · exact hall ⟨n, h⟩
  · have hlast : digit n = '/' := by
      unfold digit
      rw [if_neg (by omega), if_neg (by omega), if_neg (by omega), if_neg (by omega)]
    rw [hlast]
    exact hall 63

/-! ### Groups -/

theorem ofNat_eq {n : Nat} {b : UInt8} (h : n = b.toNat) : UInt8.ofNat n = b := by
  rw [h, UInt8.ofNat_toNat]

theorem decodeGroup?_digits (a b c : UInt8) :
    decodeGroup? (digit (a.toNat / 4)) (digit (a.toNat % 4 * 16 + b.toNat / 16))
      (digit (b.toNat % 16 * 4 + c.toNat / 64)) (digit (c.toNat % 64)) = some [a, b, c] := by
  have ha := a.toNat_lt
  have hb := b.toNat_lt
  have hc := c.toNat_lt
  unfold decodeGroup?
  rw [value?_digit (by omega), value?_digit (by omega), value?_digit (by omega),
    value?_digit (by omega)]
  simp only [Option.bind_eq_bind, Option.bind_some]
  rw [ofNat_eq (b := a) (by omega), ofNat_eq (b := b) (by omega), ofNat_eq (b := c) (by omega)]

theorem decodeLast?_one (a : UInt8) :
    decodeLast? [digit (a.toNat / 4), digit (a.toNat % 4 * 16), '=', '='] = some [a] := by
  have ha := a.toNat_lt
  show (do
    let x ← value? (digit (a.toNat / 4))
    let y ← value? (digit (a.toNat % 4 * 16))
    if y % 16 = 0 then some [UInt8.ofNat (x * 4 + y / 16)] else none) = _
  rw [value?_digit (by omega), value?_digit (by omega)]
  simp only [Option.bind_eq_bind, Option.bind_some]
  rw [if_pos (by omega), ofNat_eq (b := a) (by omega)]

/-- Three digits with one sign of padding. -/
theorem decodeLast?_padded {a b c : Char} (h : c ≠ '=') :
    decodeLast? [a, b, c, '='] = (do
      let a ← value? a
      let b ← value? b
      let c ← value? c
      if c % 4 = 0 then
        some [UInt8.ofNat (a * 4 + b / 16), UInt8.ofNat (b % 16 * 16 + c / 4)]
      else none) := by
  unfold decodeLast?
  split
  · rename_i heq
    cases heq
    exact absurd rfl h
  · rename_i heq
    cases heq
    rfl
  · rename_i hnot
    exact absurd rfl (hnot _ _ _)

theorem decodeLast?_two (a b : UInt8) :
    decodeLast? [digit (a.toNat / 4), digit (a.toNat % 4 * 16 + b.toNat / 16),
      digit (b.toNat % 16 * 4), '='] = some [a, b] := by
  have ha := a.toNat_lt
  have hb := b.toNat_lt
  rw [decodeLast?_padded (isPlain_digit _).2, value?_digit (by omega), value?_digit (by omega),
    value?_digit (by omega)]
  simp only [Option.bind_eq_bind, Option.bind_some]
  rw [if_pos (by omega), ofNat_eq (b := a) (by omega), ofNat_eq (b := b) (by omega)]

/-! ### Texts -/

theorem decodeChars?_encodeChars (bytes : Bytes) :
    decodeChars? (encodeChars bytes) = some bytes := by
  fun_induction encodeChars bytes with
  | case1 => rfl
  | case2 a => exact decodeLast?_one a
  | case3 a b => exact decodeLast?_two a b
  | case4 a b c rest ih =>
    rw [decodeChars?, if_neg (isPlain_digit _).2, decodeGroup?_digits, ih]
    rfl

/-- **Bytes are read back** from their base64 text. -/
theorem decode?_encode (bytes : Bytes) : decode? (encode bytes) = some bytes := by
  rw [decode?, encode, String.toList_ofList, decodeChars?_encodeChars]

/-- A base64 text has neither dashes nor white space. -/
theorem isPlain_of_mem_encode {bytes : Bytes} {c : Char} (h : c ∈ (encode bytes).toList) :
    IsPlain c := by
  have hpad : IsPlain '=' := by decide
  rw [encode, String.toList_ofList] at h
  fun_induction encodeChars bytes with
  | case1 => cases h
  | case2 a =>
    simp only [List.mem_cons, List.not_mem_nil, or_false] at h
    rcases h with rfl | rfl | rfl | rfl
    all_goals first | exact hpad | exact (isPlain_digit _).1
  | case3 a b =>
    simp only [List.mem_cons, List.not_mem_nil, or_false] at h
    rcases h with rfl | rfl | rfl | rfl
    all_goals first | exact hpad | exact (isPlain_digit _).1
  | case4 a b c' rest ih =>
    simp only [List.mem_cons] at h
    rcases h with rfl | rfl | rfl | rfl | h
    all_goals first | exact ih h | exact (isPlain_digit _).1

end EntitlementAuthority.Base64
