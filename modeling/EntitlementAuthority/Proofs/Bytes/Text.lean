import EntitlementAuthority.Bytes.Basic
import Mathlib.Tactic.Ring

/-!
# Text and numbers as bytes

* `Bytes.zero_notMem_ofText` — it has no zero byte if the text has no zero character.
* `Bytes.toHex_injective` — bytes are known by their hexadecimal text.
* `Bytes.ofBigEndian_bigEndian` — a number that fits is read back from its bytes.
* `Bytes.ofBigEndian_dropWhile` — leading zeros do not count.
-/

namespace EntitlementAuthority.Bytes

/-! ### Text -/

/-- A byte of the UTF-8 form of a character has its high bit set, unless it is all of it. -/
theorem toNat_of_mem_utf8EncodeChar {c : Char} {b : UInt8} (h : b ∈ String.utf8EncodeChar c) :
    b.toNat = c.toNat ∨ 128 ≤ b.toNat := by
  unfold String.utf8EncodeChar at h
  dsimp only at h
  split at h
  · rename_i hle
    left
    rw [List.mem_singleton.1 h, UInt8.toNat_ofNat']
    exact Nat.mod_eq_of_lt (Nat.lt_of_le_of_lt hle (by decide))
  · -- the first byte carries the mark of the length, the others are marked as following
    right
    split at h <;> [skip; split at h] <;>
      simp only [List.mem_cons, List.not_mem_nil, or_false] at h
    · rcases h with rfl | rfl <;> (rw [UInt8.toNat_ofNat']; omega)
    · rcases h with rfl | rfl | rfl <;> (rw [UInt8.toNat_ofNat']; omega)
    · rcases h with rfl | rfl | rfl | rfl <;> (rw [UInt8.toNat_ofNat']; omega)

/-- The UTF-8 form of a text without a zero character has no zero byte. -/
theorem zero_notMem_ofText {s : String} (h : '\u0000' ∉ s.toList) : 0 ∉ ofText s := by
  intro hzero
  obtain ⟨c, hc, hmem⟩ := List.mem_flatMap.1 hzero
  rcases toNat_of_mem_utf8EncodeChar hmem with hvalue | hlarge
  · have hchar : c = '\u0000' := Char.toNat_inj.1 hvalue.symm
    rw [hchar] at hc
    exact h hc
  · exact absurd hlarge (by decide)

/-! ### Hexadecimal text -/

theorem hexValue?_hexDigit {n : Nat} (h : n < 16) : hexValue? (hexDigit n) = some n := by
  have hall : ∀ m : Fin 16, hexValue? (hexDigit m) = some m.val := by decide
  exact hall ⟨n, h⟩

/-- Bytes are read back from their hexadecimal text. -/
theorem ofHex?_toHex (bytes : Bytes) : ofHex? (toHex bytes) = some bytes := by
  rw [ofHex?, toHex, String.toList_ofList]
  induction bytes with
  | nil => rfl
  | cons b bytes ih =>
    have hb := b.toNat_lt
    have hbyte : b.toNat / 16 * 16 + b.toNat % 16 = b.toNat := Nat.div_add_mod' b.toNat 16
    have hhigh : hexValue? (hexDigit (b.toNat / 16)) = some (b.toNat / 16) :=
      hexValue?_hexDigit (by omega)
    have hlow : hexValue? (hexDigit (b.toNat % 16)) = some (b.toNat % 16) :=
      hexValue?_hexDigit (by omega)
    rw [List.flatMap_cons, List.cons_append, List.cons_append, List.nil_append, ofHexDigits?, hhigh,
      hlow, ih]
    show some (UInt8.ofNat (b.toNat / 16 * 16 + b.toNat % 16) :: bytes) = _
    rw [hbyte, UInt8.ofNat_toNat]

theorem toHex_injective : Function.Injective toHex := by
  intro bytes bytes' h
  have hread := congrArg ofHex? h
  rwa [ofHex?_toHex, ofHex?_toHex, Option.some.injEq] at hread

/-! ### Numbers -/

theorem foldl_bigEndian (count n m : Nat) :
    (bigEndian count n).foldl (fun n b => n * 256 + b.toNat) m =
      m * 256 ^ count + n % 256 ^ count := by
  induction count generalizing m with
  | zero => simp [bigEndian, Nat.mod_one]
  | succ k ih =>
    rw [bigEndian, List.foldl_cons, ih, UInt8.toNat_ofNat', Nat.pow_eq, Nat.mod_pow_succ (x := n)]
    ring

/-- A number that fits is read back from its bytes. -/
theorem ofBigEndian_bigEndian {count n : Nat} (h : n < 256 ^ count) :
    ofBigEndian (bigEndian count n) = n := by
  rw [ofBigEndian, foldl_bigEndian, Nat.zero_mul, Nat.zero_add, Nat.mod_eq_of_lt h]

/-- Leading zeros do not count. -/
theorem ofBigEndian_dropWhile (bytes : Bytes) :
    ofBigEndian (bytes.dropWhile (· == 0)) = ofBigEndian bytes := by
  induction bytes with
  | nil => rfl
  | cons b bytes ih =>
    rw [List.dropWhile_cons]
    split
    · rename_i hb
      rw [ih, LawfulBEq.eq_of_beq hb]
      rfl
    · rfl

end EntitlementAuthority.Bytes
