import EntitlementAuthority.PrefixCode.Bits
import Mathlib.Data.List.Basic

/-!
# What is written and read, one bit at a time

`Bits.toBytes` and `Bits.ofBytes` take all bits at once. A `BitWriter` writes the same bytes, and a
`BitReader` reads the same bits.

* `BitWriter.finish_extend` — what is written are the bytes of the bits.
* `BitReader.next_eq` — what is read are the bits of the bytes, one after the other.
-/

namespace EntitlementAuthority

/-! ### Writing -/

namespace BitWriter

/-! #### Bytes of gathered bits -/

theorem foldl_shiftIn_eq_toByte (b7 b6 b5 b4 b3 b2 b1 b0 : Bool) :
    [b7, b6, b5, b4, b3, b2, b1, b0].foldl shiftIn 0 = Bits.toByte b7 b6 b5 b4 b3 b2 b1 b0 := by
  decide +revert

variable {bits : List Bool}

/-- Eight gathered bits are a byte. -/
theorem toBytes_of_length_eq (h : bits.length = 8) (rest : List Bool) :
    Bits.toBytes (bits ++ rest) = bits.foldl shiftIn 0 :: Bits.toBytes rest := by
  match bits, h with
  | [b7, b6, b5, b4, b3, b2, b1, b0], _ =>
    rw [foldl_shiftIn_eq_toByte]
    rfl

/-- Fewer bits are moved up to the top of a byte. -/
theorem toBytes_of_length_lt (hpos : 0 < bits.length) (hlt : bits.length < 8) :
    Bits.toBytes bits = [bits.foldl shiftIn 0 <<< UInt8.ofNat (8 - bits.length)] := by
  match bits, hpos, hlt with
  | [b7], _, _ | [b7, b6], _, _ | [b7, b6, b5], _, _ | [b7, b6, b5, b4], _, _
  | [b7, b6, b5, b4, b3], _, _ | [b7, b6, b5, b4, b3, b2], _, _
  | [b7, b6, b5, b4, b3, b2, b1], _, _ => decide +revert

/-! #### What is written -/

/-- The bits that a writer has gathered for its next byte. -/
structure Pending (w : BitWriter) (bits : List Bool) : Prop where
  length : bits.length = w.filled
  current : bits.foldl shiftIn 0 = w.current

theorem pending_empty : empty.Pending [] :=
  ⟨rfl, rfl⟩

variable {w : BitWriter}

/-- A bit either goes to those that are pending or makes a byte of them. -/
theorem Pending.push (h : w.Pending bits) (bit : Bool) :
    bits.length + 1 ≠ 8 ∧ (w.push bit).bytes = w.bytes ∧ (w.push bit).Pending (bits ++ [bit]) ∨
      bits.length + 1 = 8 ∧ (w.push bit).Pending [] ∧
        (w.push bit).bytes = w.bytes ++ [(bits ++ [bit]).foldl shiftIn 0] := by
  have hcurrent : (bits ++ [bit]).foldl shiftIn 0 = shiftIn w.current bit := by
    rw [List.foldl_append, h.current, List.foldl_cons, List.foldl_nil]
  unfold BitWriter.push
  rw [h.length]
  split
  · rename_i hfull
    exact .inr ⟨hfull, ⟨rfl, rfl⟩, by rw [hcurrent]⟩
  · rename_i hspace
    refine .inl ⟨hspace, rfl, ?_, hcurrent⟩
    rw [List.length_append, h.length]
    rfl

/-- **What is written are the bytes of the bits**, those that are pending first. -/
theorem finish_extend (h : w.Pending bits) (more : List Bool) :
    (w.extend more).finish = w.bytes ++ Bits.toBytes (bits ++ more) := by
  induction more generalizing w bits with
  | nil =>
    rw [List.append_nil]
    unfold extend finish
    rw [List.foldl_nil, ← h.length, ← h.current]
    split
    · rename_i hpos
      rw [toBytes_of_length_lt hpos (h.length ▸ w.filled_lt)]
    · rename_i hzero
      obtain rfl := List.length_eq_zero_iff.1 (Nat.eq_zero_of_not_pos hzero)
      exact (List.append_nil w.bytes).symm
  | cons bit more ih =>
    show ((w.push bit).extend more).finish = _
    rw [List.append_cons]
    rcases h.push bit with ⟨-, hbytes, hpending⟩ | ⟨hfull, hpending, hbytes⟩
    · rw [ih hpending, hbytes]
    · have hlength : (bits ++ [bit]).length = 8 := by rw [List.length_append, ← hfull]; rfl
      rw [ih hpending, hbytes, toBytes_of_length_eq hlength, List.append_assoc]
      rfl

end BitWriter

/-! ### Reading -/

namespace BitReader

theorem bit_eq_testBit (byte : UInt8) {n : Nat} (h : n < 8) :
    ((byte >>> UInt8.ofNat n) &&& 1 == 1) = byte.toNat.testBit n := by
  have hn : n % 256 % 8 = n := by omega
  rw [Nat.testBit_eq_decide_div_mod_eq, Bool.eq_iff_iff, beq_iff_eq, decide_eq_true_eq,
    ← UInt8.toNat_inj]
  simp [Nat.shiftRight_eq_div_pow, hn, Nat.and_one_is_mod]

theorem getElem?_ofByte (byte : UInt8) {n : Nat} (h : n < 8) :
    (Bits.ofByte byte)[n]? = some ((byte >>> UInt8.ofNat (7 - n)) &&& 1 == 1) := by
  rw [bit_eq_testBit byte (Nat.lt_succ_of_le (Nat.sub_le 7 n))]
  match n, h with
  | 0, _ | 1, _ | 2, _ | 3, _ | 4, _ | 5, _ | 6, _ | 7, _ => rfl

/-- A bit is found in its byte. -/
theorem getElem?_ofBytes (bytes : Bytes) (n : Nat) : (Bits.ofBytes bytes)[n]? =
    bytes[n / 8]?.map fun byte => (byte >>> UInt8.ofNat (7 - n % 8)) &&& 1 == 1 := by
  induction bytes generalizing n with
  | nil => rfl
  | cons byte bytes ih =>
    rw [Bits.ofBytes, List.flatMap_cons]
    by_cases h : n < 8
    · rw [List.getElem?_append_left h, getElem?_ofByte byte h, Nat.div_eq_of_lt h,
        Nat.mod_eq_of_lt h]
      rfl
    · obtain ⟨m, rfl⟩ := Nat.exists_eq_add_of_le' (Nat.le_of_not_lt h)
      rw [List.getElem?_append_right (Nat.le_of_not_lt h), Nat.add_div_right m (by decide),
        Nat.add_mod_right, List.getElem?_cons_succ]
      exact ih m

/-- **What is read is the first of the bits that have not been read**, if there is one. -/
theorem next_eq (r : BitReader) : r.next = r.rest.head?.map fun bit => (bit, r.advance 1) := by
  rw [rest, List.head?_drop, getElem?_ofBytes]
  unfold next
  cases r.data[r.position / 8]? <;> rfl

end BitReader

end EntitlementAuthority
