import EntitlementAuthority.Zlib.Adler
import EntitlementAuthority.Zlib.CodeTable

/-!
# Reading zlib streams

Decompression after RFC 1950 and RFC 1951. A stream with a bad header, a preset dictionary, an
invalid block or a wrong checksum is refused, and so is one that ends early; what stands behind
the stream is given back.

* `Zlib.inflateBlocks` — the blocks of a deflate stream.
* `Zlib.inflate?` — a whole zlib stream: what it holds and what follows it.
* `Zlib.length_le_of_inflate?` — what follows a stream is no longer than the whole.
-/

namespace EntitlementAuthority.Zlib

/-- Base and extra bits of the length symbols from 257 on. -/
def lengthCodes : Array (Nat × Nat) := #[
  (3, 0), (4, 0), (5, 0), (6, 0), (7, 0), (8, 0), (9, 0), (10, 0), (11, 1), (13, 1), (15, 1),
  (17, 1), (19, 2), (23, 2), (27, 2), (31, 2), (35, 3), (43, 3), (51, 3), (59, 3), (67, 4),
  (83, 4), (99, 4), (115, 4), (131, 5), (163, 5), (195, 5), (227, 5), (258, 0)]

/-- Base and extra bits of the distance symbols. -/
def distanceCodes : Array (Nat × Nat) := #[
  (1, 0), (2, 0), (3, 0), (4, 0), (5, 1), (7, 1), (9, 2), (13, 2), (17, 3), (25, 3), (33, 4),
  (49, 4), (65, 5), (97, 5), (129, 6), (193, 6), (257, 7), (385, 7), (513, 8), (769, 8),
  (1025, 9), (1537, 9), (2049, 10), (3073, 10), (4097, 11), (6145, 11), (8193, 12), (12289, 12),
  (16385, 13), (24577, 13)]

/-- The byte that was written `distance` bytes ago; before the first byte there are zeros. -/
def byteBack (out : Array UInt8) (distance : Nat) : UInt8 :=
  if distance ≤ out.size then out.getD (out.size - distance) 0 else 0

/-- Repeats what was written `distance` bytes ago, `count` bytes long. -/
def copyBack (out : Array UInt8) (distance : Nat) : Nat → Array UInt8
  | 0 => out
  | count + 1 => copyBack (out.push (byteBack out distance)) distance count

/-- A base value with the extra bits that belong to it. -/
def readExtra? (codes : Array (Nat × Nat)) (symbol : Nat) (s : BitSource) :
    Option (Nat × BitSource) :=
  match codes[symbol]? with
  | none => none
  | some (base, extra) =>
    match s.take? extra with
    | none => none
    | some (n, t) => some (base + n, t)

theorem remaining_of_readExtra? {codes : Array (Nat × Nat)} {symbol n : Nat} {s t : BitSource}
    (h : readExtra? codes symbol s = some (n, t)) : t.remaining ≤ s.remaining := by
  unfold readExtra? at h
  split at h
  · simp at h
  · split at h
    · simp at h
    · rename_i hn
      simp only [Option.some.injEq, Prod.mk.injEq] at h
      obtain ⟨-, rfl⟩ := h
      have := BitSource.remaining_of_take? hn
      omega

/-- What a symbol of a compressed block stands for. -/
inductive BlockSymbol where
  /-- A byte. -/
  | literal (byte : UInt8)
  /-- The end of the block. -/
  | endOfBlock
  /-- The beginning of a copy: the place of its length in the table of lengths. -/
  | copy (index : Nat)

/-- The bytes come first, then the end of the block, then the lengths. -/
def BlockSymbol.ofNat (n : Nat) : BlockSymbol :=
  if n < 256 then literal (UInt8.ofNat n) else if n = 256 then endOfBlock else copy (n - 257)

/-- The length and the distance of a copy that begins with a length symbol. -/
def readCopy? (distances : CodeTable) (index : Nat) (s : BitSource) :
    Option (Nat × Nat × BitSource) :=
  match readExtra? lengthCodes index s with
  | none => none
  | some (length, t) =>
    match distances.decode? t with
    | none => none
    | some (distanceSymbol, u) =>
      match readExtra? distanceCodes distanceSymbol u with
      | none => none
      | some (distance, v) => some (length, distance, v)

theorem remaining_of_readCopy? {distances : CodeTable} {index length distance : Nat}
    {s t : BitSource} (h : readCopy? distances index s = some (length, distance, t)) :
    t.remaining ≤ s.remaining := by
  unfold readCopy? at h
  split at h
  · simp at h
  · rename_i h1
    split at h
    · simp at h
    · rename_i h2
      split at h
      · simp at h
      · rename_i h3
        simp only [Option.some.injEq, Prod.mk.injEq] at h
        obtain ⟨-, -, rfl⟩ := h
        have := remaining_of_readExtra? h1
        have := CodeTable.remaining_of_decode? h2
        have := remaining_of_readExtra? h3
        omega

/-- The symbols of a compressed block, up to the one that ends it. -/
def inflateSymbols (literals distances : CodeTable) (s : BitSource) (out : Array UInt8) :
    Option (Array UInt8 × BitSource) :=
  match _h : literals.decode? s with
  | none => none
  | some (symbol, t) =>
    match BlockSymbol.ofNat symbol with
    | .literal byte => inflateSymbols literals distances t (out.push byte)
    | .endOfBlock => some (out, t)
    | .copy index =>
      match _hc : readCopy? distances index t with
      | none => none
      | some (length, distance, u) =>
        inflateSymbols literals distances u (copyBack out distance length)
termination_by s.remaining
decreasing_by
  · exact CodeTable.remaining_of_decode? _h
  · exact Nat.lt_of_le_of_lt (remaining_of_readCopy? _hc) (CodeTable.remaining_of_decode? _h)

theorem remaining_of_inflateSymbols {literals distances : CodeTable} {s t : BitSource}
    {out result : Array UInt8} (h : inflateSymbols literals distances s out = some (result, t)) :
    t.remaining < s.remaining := by
  fun_induction inflateSymbols literals distances s out with
  | case1 => simp at h
  | case2 s out symbol u hd byte _ ih =>
    exact Nat.lt_trans (ih h) (CodeTable.remaining_of_decode? hd)
  | case3 s out symbol u hd _ =>
    simp only [Option.some.injEq, Prod.mk.injEq] at h
    obtain ⟨-, rfl⟩ := h
    exact CodeTable.remaining_of_decode? hd
  | case4 => simp at h
  | case5 s out symbol u hd index _ length distance v hc ih =>
    have h1 := ih h
    have h2 := remaining_of_readCopy? hc
    have h3 := CodeTable.remaining_of_decode? hd
    omega

/-- The codes of a block with fixed codes. -/
def fixedCodes : CodeTable × CodeTable :=
  (CodeTable.ofLengths (List.replicate 144 8 ++ List.replicate 112 9 ++ List.replicate 24 7
      ++ List.replicate 8 8),
    CodeTable.ofLengths (List.replicate 32 5))

/-- The order in which the lengths of the code for code lengths are written. -/
def lengthOrder : List Nat :=
  [16, 17, 18, 0, 8, 7, 9, 6, 10, 5, 11, 4, 12, 3, 13, 2, 14, 1, 15]

/-- Numbers of three bits each. -/
def readTriples? (count : Nat) (s : BitSource) : Option (List Nat × BitSource) :=
  match count with
  | 0 => some ([], s)
  | k + 1 => do
    let (n, t) ← s.take? 3
    let (ns, u) ← readTriples? k t
    some (n :: ns, u)

/-- Code lengths, written with a code of their own in which three symbols stand for
repetitions: `wanted` more are to be read behind the reversed list `lengths`. -/
def readLengths? (code : CodeTable) (wanted : Nat) (lengths : List Nat) (s : BitSource) :
    Option (List Nat × BitSource) :=
  if wanted = 0 then some (lengths.reverse, s)
  else
    match _h : code.decode? s with
    | none => none
    | some (symbol, t) =>
      if symbol < 16 then readLengths? code (wanted - 1) (symbol :: lengths) t
      else
        -- what is repeated, how often at least, and the bits that say how often more
        let (value, base, extra) : Option Nat × Nat × Nat :=
          if symbol = 16 then (lengths.head?, 3, 2)
          else if symbol = 17 then (some 0, 3, 3)
          else (some 0, 11, 7)
        match value, _hn : t.take? extra with
        | some value, some (n, u) =>
          if base + n ≤ wanted then
            readLengths? code (wanted - (base + n)) (List.replicate (base + n) value ++ lengths) u
          else none
        | _, _ => none
termination_by s.remaining
decreasing_by
  · exact CodeTable.remaining_of_decode? _h
  · have h1 := BitSource.remaining_of_take? _hn
    have h2 := CodeTable.remaining_of_decode? _h
    omega

/-- The codes of a block that brings its own. -/
def readCodes? (s : BitSource) : Option (CodeTable × CodeTable × BitSource) := do
  let (literalCount, s) ← s.take? 5
  let (distanceCount, s) ← s.take? 5
  let (lengthCount, s) ← s.take? 4
  let literalCount := literalCount + 257
  let distanceCount := distanceCount + 1
  if 286 < literalCount ∨ 30 < distanceCount then none
  else
    let (triples, s) ← readTriples? (lengthCount + 4) s
    -- lengths that are not written are zero
    let written := lengthOrder.zip triples
    -- at least two code lengths occur, so their own code has to be complete
    let code ← CodeTable.ofCompleteLengths? ((List.range 19).map fun n => (written.lookup n).getD 0)
    let (lengths, s) ← readLengths? code (literalCount + distanceCount) [] s
    let literals ← CodeTable.ofLengths? (lengths.take literalCount)
    let distances ← CodeTable.ofLengths? (lengths.drop literalCount)
    some (literals, distances, s)

/-- A stored block: its length, the complement of the length, and that many bytes. -/
def readStored? (s : BitSource) (out : Array UInt8) : Option (Array UInt8 × BitSource) :=
  match s.bytes with
  | l0 :: l1 :: n0 :: n1 :: bytes =>
    let length := l0.toNat + 256 * l1.toNat
    if length + (n0.toNat + 256 * n1.toNat) = 65535 ∧ length ≤ bytes.length then
      some (out ++ bytes.take length, ⟨[], bytes.drop length⟩)
    else none
  | _ => none

/-- One block after its three header bits. -/
def inflateBlock (kind : Nat) (s : BitSource) (out : Array UInt8) :
    Option (Array UInt8 × BitSource) :=
  if kind = 0 then readStored? s out
  else if kind = 1 then inflateSymbols fixedCodes.1 fixedCodes.2 s out
  else if kind = 2 then
    match readCodes? s with
    | none => none
    | some (literals, distances, t) =>
      if t.remaining ≤ s.remaining then inflateSymbols literals distances t out else none
  else none

theorem remaining_of_readStored? {s t : BitSource} {out result : Array UInt8}
    (h : readStored? s out = some (result, t)) : t.remaining ≤ s.remaining := by
  unfold readStored? at h
  split at h
  · rename_i l0 l1 n0 n1 bytes hb
    dsimp only at h
    split at h
    · simp only [Option.some.injEq, Prod.mk.injEq] at h
      obtain ⟨-, rfl⟩ := h
      simp only [BitSource.remaining, hb, List.length_nil, List.length_drop, List.length_cons]
      omega
    · simp at h
  · simp at h

theorem remaining_of_inflateBlock {kind : Nat} {s t : BitSource} {out result : Array UInt8}
    (h : inflateBlock kind s out = some (result, t)) : t.remaining ≤ s.remaining := by
  unfold inflateBlock at h
  split at h
  · exact remaining_of_readStored? h
  · split at h
    · exact Nat.le_of_lt (remaining_of_inflateSymbols h)
    · split at h
      · split at h
        · simp at h
        · split at h
          · rename_i hle
            exact Nat.le_trans (Nat.le_of_lt (remaining_of_inflateSymbols h)) hle
          · simp at h
      · simp at h

/-- The blocks of a deflate stream, up to the one that is marked as the last. -/
def inflateBlocks (s : BitSource) (out : Array UInt8) : Option (Array UInt8 × BitSource) :=
  match _hl : s.next? with
  | none => none
  | some (last, t) =>
    match _hk : t.take? 2 with
    | none => none
    | some (kind, u) =>
      match _hb : inflateBlock kind u out with
      | none => none
      | some (out, v) => if last then some (out, v) else inflateBlocks v out
termination_by s.remaining
decreasing_by
  have h1 := BitSource.remaining_of_next? _hl
  have h2 := BitSource.remaining_of_take? _hk
  have h3 := remaining_of_inflateBlock _hb
  omega

/-- The two bytes in front of a stream: deflate with a window of at most 32 kilobytes, a
number divisible by 31, and no preset dictionary. -/
def isHeader (method flags : UInt8) : Bool :=
  method.toNat % 16 == 8 && method.toNat / 16 ≤ 7 &&
    (method.toNat * 256 + flags.toNat) % 31 == 0 && !flags.toNat.testBit 5

/-- What a zlib stream holds, and the bytes behind the stream. -/
def inflate? (input : Bytes) : Option (Bytes × Bytes) :=
  match input with
  | method :: flags :: bytes =>
    if isHeader method flags then
      match inflateBlocks (BitSource.ofBytes bytes) #[] with
      | none => none
      | some (out, s) =>
        let content := out.toList
        let checksum := s.bytes.take 4
        if checksum = Bytes.bigEndian 4 (adler32 content) then some (content, s.bytes.drop 4)
        else none
    else none
  | _ => none

/-- What stands behind the blocks of a stream is not longer than what stood in front of them. -/
theorem remaining_of_inflateBlocks {s t : BitSource} {out result : Array UInt8}
    (h : inflateBlocks s out = some (result, t)) : t.remaining ≤ s.remaining := by
  fun_induction inflateBlocks s out with
  | case1 => cases h
  | case2 => cases h
  | case3 => cases h
  | case4 s out u kind v hkind out' w hblock hlast =>
    cases h
    have h1 := BitSource.remaining_of_next? hlast
    have h2 := BitSource.remaining_of_take? hkind
    have h3 := remaining_of_inflateBlock hblock
    omega
  | case5 s out last u hlast kind v hkind out' w hblock hmore ih =>
    have h1 := BitSource.remaining_of_next? hlast
    have h2 := BitSource.remaining_of_take? hkind
    have h3 := remaining_of_inflateBlock hblock
    have h4 := ih h
    omega

/-- What stands behind a stream is not longer than the whole. -/
theorem length_le_of_inflate? {input content rest : Bytes}
    (h : inflate? input = some (content, rest)) : rest.length ≤ input.length := by
  unfold inflate? at h
  split at h
  · rename_i method flags bytes
    split at h
    · split at h
      · cases h
      · rename_i out s hblocks
        dsimp only at h
        split at h
        · obtain ⟨-, rfl⟩ := Prod.mk.inj (Option.some.inj h)
          have hle := remaining_of_inflateBlocks hblocks
          simp only [BitSource.remaining, BitSource.ofBytes, List.length_nil] at hle
          rw [List.length_drop, List.length_cons, List.length_cons]
          omega
        · cases h
    · cases h
  · cases h

end EntitlementAuthority.Zlib
