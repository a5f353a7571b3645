import EntitlementAuthority.Bytes.Basic

/-!
# Bits in bytes

The bits of a tree of content paths fill bytes from the most significant bit on; the last byte
is filled up with zeros.

* `Bits.ofBytes` — the bits of bytes.
* `Bits.toBytes` — bytes that hold the bits.
* `BitWriter` — bytes that are full, and the bits of the next one.
* `BitReader` — bytes and the place of the next bit.
-/

namespace EntitlementAuthority

namespace Bits

/-- The bits of a byte, most significant first. -/
def ofByte (b : UInt8) : List Bool :=
  [b.toNat.testBit 7, b.toNat.testBit 6, b.toNat.testBit 5, b.toNat.testBit 4, b.toNat.testBit 3,
    b.toNat.testBit 2, b.toNat.testBit 1, b.toNat.testBit 0]

/-- The bits of bytes. -/
def ofBytes (bytes : Bytes) : List Bool :=
  bytes.flatMap ofByte

/-- The byte with the given bits, most significant first. -/
def toByte (b7 b6 b5 b4 b3 b2 b1 b0 : Bool) : UInt8 :=
  UInt8.ofNat (b7.toNat * 128 + b6.toNat * 64 + b5.toNat * 32 + b4.toNat * 16 + b3.toNat * 8
    + b2.toNat * 4 + b1.toNat * 2 + b0.toNat)

/-- Bytes that hold the bits, the last one filled up with zeros. -/
def toBytes : List Bool → Bytes
  | b7 :: b6 :: b5 :: b4 :: b3 :: b2 :: b1 :: b0 :: bits =>
    toByte b7 b6 b5 b4 b3 b2 b1 b0 :: toBytes bits
  | [] => []
  | bits =>
    let bit (i : Nat) : Bool := bits.getD i false
    [toByte (bit 0) (bit 1) (bit 2) (bit 3) (bit 4) (bit 5) (bit 6) (bit 7)]

@[simp] theorem length_ofBytes (bytes : Bytes) : (ofBytes bytes).length = 8 * bytes.length := by
  induction bytes with
  | nil => rfl
  | cons b bytes ih =>
    simp only [ofBytes, List.flatMap_cons, List.length_append, ofByte, List.length_cons,
      List.length_nil] at ih ⊢
    omega

end Bits

/-! ### Writing -/

/-- Bytes that are full, and the bits of the next one, of which there are fewer than eight. -/
structure BitWriter where
  bytes : Bytes
  current : UInt8
  filled : Nat
  filled_lt : filled < 8

namespace BitWriter

/-- Nothing written. -/
def empty : BitWriter :=
  ⟨[], 0, 0, by decide⟩

/-- Moves the bits of a byte up and puts one more behind them. -/
def shiftIn (byte : UInt8) (bit : Bool) : UInt8 :=
  byte <<< 1 ||| bit.toUInt8

/-- Writes a bit. -/
def push (w : BitWriter) (bit : Bool) : BitWriter :=
  if h : w.filled + 1 = 8 then ⟨w.bytes ++ [shiftIn w.current bit], 0, 0, by decide⟩
  else ⟨w.bytes, shiftIn w.current bit, w.filled + 1, Nat.lt_of_le_of_ne w.filled_lt h⟩

/-- Writes bits. -/
def extend (w : BitWriter) (bits : List Bool) : BitWriter :=
  bits.foldl push w

/-- The bytes, the last one filled up with zeros. -/
def finish (w : BitWriter) : Bytes :=
  if 0 < w.filled then w.bytes ++ [w.current <<< UInt8.ofNat (8 - w.filled)] else w.bytes

end BitWriter

/-! ### Reading -/

/-- Bytes, and the place of the bit that is read next. -/
structure BitReader where
  data : Bytes
  position : Nat
deriving DecidableEq, Repr

namespace BitReader

/-- The next bit. -/
def next (r : BitReader) : Option (Bool × BitReader) :=
  match r.data[r.position / 8]? with
  | none => none
  | some byte =>
    some ((byte >>> UInt8.ofNat (7 - r.position % 8)) &&& 1 == 1, ⟨r.data, r.position + 1⟩)

/-- The bits that have not been read. -/
def rest (r : BitReader) : List Bool :=
  (Bits.ofBytes r.data).drop r.position

/-- The reader when some more bits are read. -/
def advance (r : BitReader) (count : Nat) : BitReader :=
  ⟨r.data, r.position + count⟩

@[simp] theorem advance_advance (r : BitReader) (m n : Nat) :
    (r.advance m).advance n = r.advance (m + n) := by
  simp only [advance, Nat.add_assoc]

theorem rest_advance (r : BitReader) (count : Nat) :
    (r.advance count).rest = r.rest.drop count := by
  simp only [advance, rest, List.drop_drop]

end BitReader

end EntitlementAuthority
