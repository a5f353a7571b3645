import EntitlementAuthority.Zlib.BitSource

/-!
# Canonical codes

The codes of a deflate block are given by their lengths alone: codes of one length are
consecutive numbers in the order of their symbols, and shorter codes come first.

* `CodeTable` — the codes that a list of lengths stands for.
* `CodeTable.ofCompleteLengths?` — refuses lengths that leave codes unused or need more codes than
  there are.
* `CodeTable.ofLengths?` — admits besides that at most one symbol has a code, of one bit.
* `CodeTable.decode?` — reads one symbol.
-/

namespace EntitlementAuthority.Zlib

/-- The canonical code of a list of code lengths. -/
structure CodeTable where
  /-- How many codes there are of length 1, 2, and so on. -/
  counts : List Nat
  /-- The symbols in the order of their codes. -/
  symbols : Array Nat

namespace CodeTable

/-- The longest code. -/
def maxLength : Nat := 15

/-- The symbols whose code has the given length, in ascending order. -/
def symbolsOfLength (lengths : List Nat) (n : Nat) : List Nat :=
  (lengths.zipIdx.filter fun (length, _) => length == n).map Prod.snd

/-- The codes of a list of lengths; length 0 stands for no code. -/
def ofLengths (lengths : List Nat) : CodeTable :=
  let groups := (List.range' 1 maxLength).map (symbolsOfLength lengths)
  ⟨groups.map List.length, groups.flatten.toArray⟩

/-- The share of the code space that a list of lengths takes, in units of the longest code. -/
def codeSpace (lengths : List Nat) : Nat :=
  ((lengths.filter (0 < ·)).map fun n => Nat.pow 2 (maxLength - n)).foldr (· + ·) 0

/-- The codes of a list of lengths that takes all of the code space. -/
def ofCompleteLengths? (lengths : List Nat) : Option CodeTable :=
  if codeSpace lengths = Nat.pow 2 maxLength then some (ofLengths lengths) else none

/-- The codes of a list of lengths that is complete or has at most one code, of one bit. -/
def ofLengths? (lengths : List Nat) : Option CodeTable :=
  if (lengths.filter (0 < ·)).isPrefixOf [1] then some (ofLengths lengths)
  else ofCompleteLengths? lengths

/-- Reads bits until they are a code: `offset` is how far the bits read so far, as a number,
lie above the first code of their length, and `index` the place of that code. -/
def decodeFrom (symbols : Array Nat) (offset index : Nat) :
    List Nat → BitSource → Option (Nat × BitSource)
  | [], _ => none
  | count :: counts, s =>
    match s.next? with
    | none => none
    | some (b, t) =>
      let offset := 2 * offset + b.toNat
      if offset < count then
        match symbols[index + offset]? with
        | some symbol => some (symbol, t)
        | none => none
      else decodeFrom symbols (offset - count) (index + count) counts t

/-- Reads one symbol. -/
def decode? (table : CodeTable) (s : BitSource) : Option (Nat × BitSource) :=
  decodeFrom table.symbols 0 0 table.counts s

theorem remaining_of_decodeFrom {symbols : Array Nat} {offset index n : Nat} {counts : List Nat}
    {s t : BitSource} (h : decodeFrom symbols offset index counts s = some (n, t)) :
    t.remaining < s.remaining := by
  induction counts generalizing offset index s with
  | nil => simp [decodeFrom] at h
  | cons count counts ih =>
    unfold decodeFrom at h
    split at h
    · simp at h
    · rename_i hb
      have hs := BitSource.remaining_of_next? hb
      dsimp only at h
      split at h
      · split at h
        · simp only [Option.some.injEq, Prod.mk.injEq] at h
          obtain ⟨-, rfl⟩ := h
          omega
        · simp at h
      · have := ih h
        omega

/-- Reading a symbol takes at least one bit. -/
theorem remaining_of_decode? {table : CodeTable} {n : Nat} {s t : BitSource}
    (h : table.decode? s = some (n, t)) : t.remaining < s.remaining :=
  remaining_of_decodeFrom h

end CodeTable

end EntitlementAuthority.Zlib
