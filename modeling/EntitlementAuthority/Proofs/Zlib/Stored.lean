import EntitlementAuthority.Zlib.Inflate
import EntitlementAuthority.Zlib.Store

/-!
# Compressing without loss

* `Zlib.IsCompressor` — what is asked of a compressor: its streams can be read back, whatever stands
  behind them.
* `Zlib.length_deflate` — the length of a short stream.
* `Zlib.isCompressor_deflate` — streams of stored blocks can be read back.
-/

namespace EntitlementAuthority.Zlib

/-- Reading the stream of some bytes gives them back, and leaves what stands behind the stream. -/
def IsCompressor (deflate : Bytes → Bytes) : Prop :=
  ∀ bytes rest, inflate? (deflate bytes ++ rest) = some (bytes, rest)

/-! ### Stored blocks -/

/-- A number below 65536 is read back from its two bytes. -/
theorem toNat_littleEndian16 {n : Nat} (h : n ≤ blockLimit) :
    (UInt8.ofNat (n % 256)).toNat + 256 * (UInt8.ofNat (n / 256)).toNat = n := by
  unfold blockLimit at h
  rw [UInt8.toNat_ofNat', UInt8.toNat_ofNat']
  omega

/-- The bytes of a stored block behind its header are read back. -/
theorem readStored?_storedBlock {bytes : Bytes} (h : bytes.length ≤ blockLimit) (bits : List Bool)
    (rest : Bytes) (out : Array UInt8) :
    readStored? ⟨bits, littleEndian16 bytes.length ++ littleEndian16 (blockLimit - bytes.length)
        ++ bytes ++ rest⟩ out =
      some (out ++ bytes, ⟨[], rest⟩) := by
  have hlength := toNat_littleEndian16 h
  have hcomplement := toNat_littleEndian16 (Nat.sub_le blockLimit bytes.length)
  simp only [readStored?, littleEndian16, List.cons_append, List.nil_append]
  rw [hlength, hcomplement, if_pos]
  · rw [List.take_left, List.drop_left]
  · refine ⟨Nat.add_sub_cancel' h, ?_⟩
    rw [List.length_append]
    exact Nat.le_add_right _ _

/-- Blocks are read one after the other. -/
theorem inflateBlocks_eq {s t u v : BitSource} {last : Bool} {kind : Nat} {out result : Array UInt8}
    (hlast : s.next? = some (last, t)) (hkind : t.take? 2 = some (kind, u))
    (hblock : inflateBlock kind u out = some (result, v)) :
    inflateBlocks s out = if last then some (result, v) else inflateBlocks v result := by
  -- the matches carry proofs that the source gets shorter, so what is read cannot be rewritten
  rw [inflateBlocks]
  split
  · rename_i h
    rw [hlast] at h
    cases h
  · rename_i h
    rw [hlast] at h
    cases h
    split
    · rename_i h
      rw [hkind] at h
      cases h
    · rename_i h
      rw [hkind] at h
      cases h
      split
      · rename_i h
        rw [hblock] at h
        cases h
      · rename_i h
        rw [hblock] at h
        cases h
        rfl

/-- A stored block is read back, and if it is not the last, the next one is read. -/
theorem inflateBlocks_storedBlock (last : Bool) {bytes : Bytes} (h : bytes.length ≤ blockLimit)
    (rest : Bytes) (out : Array UInt8) :
    inflateBlocks (BitSource.ofBytes (storedBlock last bytes ++ rest)) out =
      if last then some (out ++ bytes, BitSource.ofBytes rest)
      else inflateBlocks (BitSource.ofBytes rest) (out ++ bytes) := by
  have hlast : (BitSource.ofBytes (storedBlock last bytes ++ rest)).next? =
      some (last, ⟨List.replicate 7 false, littleEndian16 bytes.length
        ++ littleEndian16 (blockLimit - bytes.length) ++ bytes ++ rest⟩) := by
    cases last <;> rfl
  exact inflateBlocks_eq hlast rfl (readStored?_storedBlock h (List.replicate 5 false) rest out)

/-- All stored blocks are read back. -/
theorem inflateBlocks_storedBlocks (bytes rest : Bytes) (out : Array UInt8) :
    inflateBlocks (BitSource.ofBytes (storedBlocks bytes ++ rest)) out =
      some (out ++ bytes, BitSource.ofBytes rest) := by
  fun_induction storedBlocks bytes generalizing out with
  | case1 bytes h =>
    rw [inflateBlocks_storedBlock true h, if_pos rfl]
  | case2 bytes h ih =>
    -- a full block, and then the blocks for the bytes that are left
    have hfirst : (bytes.take blockLimit).length ≤ blockLimit := List.length_take_le _ _
    rw [List.append_assoc, inflateBlocks_storedBlock false hfirst, if_neg Bool.false_ne_true, ih]
    congr 2
    refine Array.ext' ?_
    rw [Array.toList_appendList, Array.toList_appendList, Array.toList_appendList,
      List.append_assoc, List.take_append_drop]

/-! ### Streams -/

/-- Bytes that fit into one block get eleven more. -/
theorem length_deflate {bytes : Bytes} (h : bytes.length ≤ blockLimit) :
    (deflate bytes).length = bytes.length + 11 := by
  unfold deflate
  rw [storedBlocks, if_pos h, List.length_append, List.length_append, Bytes.length_bigEndian]
  unfold storedBlock littleEndian16
  simp only [List.length_append, List.length_cons, List.length_nil]
  omega

/-- **What is stored is read back.** -/
theorem isCompressor_deflate : IsCompressor deflate := by
  intro bytes rest
  have hblocks := inflateBlocks_storedBlocks bytes
    (Bytes.bigEndian 4 (adler32 bytes) ++ rest) #[]
  have hchecksum := Bytes.length_bigEndian 4 (adler32 bytes)
  simp only [deflate, List.append_assoc, List.cons_append, List.nil_append, inflate?]
  rw [if_pos (by decide), hblocks]
  dsimp only [BitSource.ofBytes]
  rw [Array.toList_appendList, List.nil_append, List.take_left' hchecksum, if_pos rfl,
    List.drop_left' hchecksum]

end EntitlementAuthority.Zlib
