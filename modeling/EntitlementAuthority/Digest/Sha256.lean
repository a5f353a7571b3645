import EntitlementAuthority.Bytes.Basic

/-!
# SHA-256

The digest of FIPS 180-4 over bytes.

* `Sha256.padding` — what is put behind a message so that it fills whole blocks.
* `Sha256.digest` — the thirty-two bytes of the digest.
-/

namespace EntitlementAuthority.Sha256

/-- The chaining value: eight words. -/
structure State where
  a : UInt32
  b : UInt32
  c : UInt32
  d : UInt32
  e : UInt32
  f : UInt32
  g : UInt32
  h : UInt32

/-- The chaining value before the first block. -/
def initial : State :=
  ⟨0x6a09e667, 0xbb67ae85, 0x3c6ef372, 0xa54ff53a, 0x510e527f, 0x9b05688c, 0x1f83d9ab, 0x5be0cd19⟩

/-- The round constants. -/
def roundConstants : List UInt32 := [
  0x428a2f98, 0x71374491, 0xb5c0fbcf, 0xe9b5dba5, 0x3956c25b, 0x59f111f1, 0x923f82a4, 0xab1c5ed5,
  0xd807aa98, 0x12835b01, 0x243185be, 0x550c7dc3, 0x72be5d74, 0x80deb1fe, 0x9bdc06a7, 0xc19bf174,
  0xe49b69c1, 0xefbe4786, 0x0fc19dc6, 0x240ca1cc, 0x2de92c6f, 0x4a7484aa, 0x5cb0a9dc, 0x76f988da,
  0x983e5152, 0xa831c66d, 0xb00327c8, 0xbf597fc7, 0xc6e00bf3, 0xd5a79147, 0x06ca6351, 0x14292967,
  0x27b70a85, 0x2e1b2138, 0x4d2c6dfc, 0x53380d13, 0x650a7354, 0x766a0abb, 0x81c2c92e, 0x92722c85,
  0xa2bfe8a1, 0xa81a664b, 0xc24b8b70, 0xc76c51a3, 0xd192e819, 0xd6990624, 0xf40e3585, 0x106aa070,
  0x19a4c116, 0x1e376c08, 0x2748774c, 0x34b0bcb5, 0x391c0cb3, 0x4ed8aa4a, 0x5b9cca4f, 0x682e6ff3,
  0x748f82ee, 0x78a5636f, 0x84c87814, 0x8cc70208, 0x90befffa, 0xa4506ceb, 0xbef9a3f7, 0xc67178f2]

/-- A word turned right by `n` bits, for `n` from 1 to 31. -/
def rotateRight (w n : UInt32) : UInt32 :=
  (w >>> n) ||| (w <<< (32 - n))

/-- The next word of the schedule, from the words before it. -/
def scheduleWord (schedule : Array UInt32) (t : Nat) : UInt32 :=
  let w (back : Nat) : UInt32 := schedule.getD (t - back) 0
  let s0 := rotateRight (w 15) 7 ^^^ rotateRight (w 15) 18 ^^^ (w 15 >>> 3)
  let s1 := rotateRight (w 2) 17 ^^^ rotateRight (w 2) 19 ^^^ (w 2 >>> 10)
  w 16 + s0 + w 7 + s1

/-- The sixteen words of a block, followed by the forty-eight made from them. -/
def schedule (block : List UInt32) : Array UInt32 :=
  (List.range' 16 48).foldl (fun words t => words.push (scheduleWord words t)) block.toArray

/-- One round. -/
def round (s : State) (k w : UInt32) : State :=
  let s1 := rotateRight s.e 6 ^^^ rotateRight s.e 11 ^^^ rotateRight s.e 25
  let choice := (s.e &&& s.f) ^^^ (s.e.complement &&& s.g)
  let t1 := s.h + s1 + choice + k + w
  let s0 := rotateRight s.a 2 ^^^ rotateRight s.a 13 ^^^ rotateRight s.a 22
  let majority := (s.a &&& s.b) ^^^ (s.a &&& s.c) ^^^ (s.b &&& s.c)
  ⟨t1 + s0 + majority, s.a, s.b, s.c, s.d + t1, s.e, s.f, s.g⟩

/-- Takes one block of sixteen words into the chaining value. -/
def absorb (s : State) (block : List UInt32) : State :=
  let r := (roundConstants.zip (schedule block).toList).foldl (fun s (k, w) => round s k w) s
  ⟨s.a + r.a, s.b + r.b, s.c + r.c, s.d + r.d, s.e + r.e, s.f + r.f, s.g + r.g, s.h + r.h⟩

/-- What is put behind a message of `n` bytes: a one bit, zero bits, and the length in bits. -/
def padding (n : Nat) : Bytes :=
  0x80 :: (List.replicate ((119 - n % 64) % 64) 0 ++ Bytes.bigEndian 8 (n * 8))

/-- Words of four bytes, most significant byte first. -/
def words : Bytes → List UInt32
  | a :: b :: c :: d :: rest =>
    ((a.toUInt32 <<< 24) ||| (b.toUInt32 <<< 16) ||| (c.toUInt32 <<< 8) ||| d.toUInt32)
      :: words rest
  | _ => []

/-- Takes all words into the chaining value, sixteen at a time. -/
def absorbAll (s : State) (ws : List UInt32) : State :=
  if ws.length < 16 then s else absorbAll (absorb s (ws.take 16)) (ws.drop 16)
termination_by ws.length
decreasing_by
  simp only [List.length_drop]
  omega

/-- The four bytes of a word. -/
def wordBytes (w : UInt32) : Bytes :=
  Bytes.bigEndian 4 w.toNat

/-- The digest of a message. -/
def digest (message : Bytes) : Bytes :=
  let s := absorbAll initial (words (message ++ padding message.length))
  [s.a, s.b, s.c, s.d, s.e, s.f, s.g, s.h].flatMap wordBytes

/-- A digest has thirty-two bytes. -/
theorem length_digest (message : Bytes) : (digest message).length = 32 := by
  simp [digest, wordBytes]

end EntitlementAuthority.Sha256
