import EntitlementAuthority.Bytes.Basic

/-!
# Reading bits

Compressed data is read bit by bit, the least significant bit of every byte first, and from a
byte boundary on byte by byte.

* `BitSource` — what is left to read.
* `BitSource.next?`, `BitSource.take?` — one bit, and a number of several bits.
* `BitSource.remaining` — the measure that every read makes smaller.
-/

namespace EntitlementAuthority.Zlib

/-- What is left to read: the rest of a byte that was begun, and whole bytes. -/
structure BitSource where
  bits : List Bool
  bytes : Bytes

/-- The bits of a byte, least significant first. -/
def byteBits (b : UInt8) : List Bool :=
  [b.toNat.testBit 0, b.toNat.testBit 1, b.toNat.testBit 2, b.toNat.testBit 3, b.toNat.testBit 4,
    b.toNat.testBit 5, b.toNat.testBit 6, b.toNat.testBit 7]

namespace BitSource

/-- Starts at the first bit of the bytes. -/
def ofBytes (bytes : Bytes) : BitSource :=
  ⟨[], bytes⟩

/-- How many bits are left. -/
def remaining (s : BitSource) : Nat :=
  s.bits.length + 8 * s.bytes.length

/-- The next bit. -/
def next? (s : BitSource) : Option (Bool × BitSource) :=
  match s.bits with
  | b :: bits => some (b, ⟨bits, s.bytes⟩)
  | [] =>
    match s.bytes with
    | [] => none
    | byte :: bytes => some (byte.toNat.testBit 0, ⟨(byteBits byte).tail, bytes⟩)

/-- Reading a bit leaves one bit less. -/
theorem remaining_of_next? {s t : BitSource} {b : Bool} (h : s.next? = some (b, t)) :
    t.remaining + 1 = s.remaining := by
  unfold next? at h
  split at h
  · rename_i hb
    simp only [Option.some.injEq, Prod.mk.injEq] at h
    obtain ⟨rfl, rfl⟩ := h
    simp only [remaining, hb, List.length_cons]
    omega
  · rename_i hb
    split at h
    · simp at h
    · rename_i hbytes
      simp only [Option.some.injEq, Prod.mk.injEq] at h
      obtain ⟨rfl, rfl⟩ := h
      simp only [remaining, hb, hbytes, byteBits, List.tail_cons, List.length_cons,
        List.length_nil]
      omega

/-- A number of `count` bits, least significant first. -/
def take? (count : Nat) (s : BitSource) : Option (Nat × BitSource) :=
  match count with
  | 0 => some (0, s)
  | k + 1 =>
    match s.next? with
    | none => none
    | some (b, t) =>
      match t.take? k with
      | none => none
      | some (n, u) => some (b.toNat + 2 * n, u)

/-- Reading a number leaves that many bits less. -/
theorem remaining_of_take? {count n : Nat} {s t : BitSource} (h : s.take? count = some (n, t)) :
    t.remaining + count = s.remaining := by
  induction count generalizing s t n with
  | zero =>
    simp only [take?, Option.some.injEq, Prod.mk.injEq] at h
    simp [h.2]
  | succ k ih =>
    unfold take? at h
    split at h
    · simp at h
    · rename_i hb
      split at h
      · simp at h
      · rename_i hn
        simp only [Option.some.injEq, Prod.mk.injEq] at h
        obtain ⟨-, rfl⟩ := h
        have h1 := remaining_of_next? hb
        have h2 := ih hn
        omega

end BitSource

end EntitlementAuthority.Zlib
