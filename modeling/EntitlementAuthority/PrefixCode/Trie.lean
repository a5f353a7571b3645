/-!
# Prefix codes

Symbols get codes of bits from a trie with a symbol at every leaf: the code of a symbol is the
way from the root to its leaf. The trie is Huffman's: of all tries waiting to be joined, the two
of least weight are joined first, and of equal weights the one that has waited longest.

* `Trie.ofLeaves?` — the trie for weighted symbols.
* `Trie.codes`, `Trie.code` — the codes of the symbols.
* `Trie.decode?` — reads one symbol.
* `Trie.length_of_decode?` — reading a symbol of an inner trie takes at least one bit.
-/

namespace EntitlementAuthority

/-- A binary trie with a symbol at every leaf. -/
inductive Trie where
  | leaf (symbol : Nat)
  | node (zero one : Trie)
deriving DecidableEq, Repr

/-- A trie that waits to be joined, with the weight of its symbols. -/
structure WeightedTrie where
  weight : Nat
  trie : Trie

namespace Trie

/-! ### Building -/

/-- Queues a trie behind all those that are not heavier. -/
def enqueue (t : WeightedTrie) : List WeightedTrie → List WeightedTrie
  | [] => [t]
  | u :: us => if u.weight ≤ t.weight then u :: enqueue t us else t :: u :: us

theorem length_enqueue (t : WeightedTrie) (us : List WeightedTrie) :
    (enqueue t us).length = us.length + 1 := by
  induction us with
  | nil => rfl
  | cons u us ih =>
    unfold enqueue
    split <;> simp [ih]

/-- Joins the first two tries of the queue until one is left. -/
def joinAll : List WeightedTrie → Option Trie
  | [] => none
  | [t] => some t.trie
  -- the first of the two goes to the side of the zeros
  | t :: u :: us => joinAll (enqueue ⟨t.weight + u.weight, node t.trie u.trie⟩ us)
termination_by queue => queue.length
decreasing_by
  simp only [length_enqueue, List.length_cons]
  omega

theorem isSome_joinAll {queue : List WeightedTrie} (h : queue ≠ []) :
    (joinAll queue).isSome = true := by
  fun_induction joinAll queue with
  | case1 => exact absurd rfl h
  | case2 => rfl
  | case3 t u us ih =>
    apply ih
    intro he
    have := length_enqueue ⟨t.weight + u.weight, node t.trie u.trie⟩ us
    simp [he] at this

/-- A leaf for every symbol, lightest first, equal weights in the given order. -/
def queue (leaves : List (Nat × Nat)) : List WeightedTrie :=
  (leaves.map fun (symbol, weight) => ⟨weight, leaf symbol⟩).mergeSort
    fun t u => t.weight ≤ u.weight

/-- The trie for symbols with their weights; there is none for no symbols. -/
def ofLeaves? (leaves : List (Nat × Nat)) : Option Trie :=
  joinAll (queue leaves)

theorem isSome_ofLeaves? {leaves : List (Nat × Nat)} (h : leaves ≠ []) :
    (ofLeaves? leaves).isSome = true := by
  apply isSome_joinAll
  intro hq
  have hlen := congrArg List.length hq
  simp only [queue, List.length_mergeSort, List.length_map, List.length_nil] at hlen
  exact h (List.length_eq_zero_iff.1 hlen)

/-! ### Codes -/

/-- Every symbol with its code, from left to right. -/
def codes : Trie → List (Nat × List Bool)
  | leaf symbol => [(symbol, [])]
  | node zero one =>
    (zero.codes.map fun (symbol, bits) => (symbol, false :: bits))
      ++ one.codes.map fun (symbol, bits) => (symbol, true :: bits)

/-- The code of a symbol; no bits for a symbol that the trie does not have. -/
def code (t : Trie) (symbol : Nat) : List Bool :=
  (t.codes.lookup symbol).getD []

/-! ### Reading -/

/-- Follows the bits from the root to a leaf: its symbol and the bits behind the code. Too few
bits give nothing. -/
def decode? : Trie → List Bool → Option (Nat × List Bool)
  | leaf symbol, bits => some (symbol, bits)
  | node _ _, [] => none
  | node zero _, false :: bits => zero.decode? bits
  | node _ one, true :: bits => one.decode? bits

theorem length_le_of_decode? {t : Trie} {bits rest : List Bool} {symbol : Nat}
    (h : t.decode? bits = some (symbol, rest)) : rest.length ≤ bits.length := by
  fun_induction decode? t bits with
  | case1 => simp_all
  | case2 => simp at h
  | case3 zero one bits ih => exact Nat.le_succ_of_le (ih h)
  | case4 zero one bits ih => exact Nat.le_succ_of_le (ih h)

/-- Reading a symbol of an inner trie takes at least one bit. -/
theorem length_of_decode? {zero one : Trie} {bits rest : List Bool} {symbol : Nat}
    (h : (node zero one).decode? bits = some (symbol, rest)) : rest.length < bits.length := by
  cases bits with
  | nil => simp [decode?] at h
  | cons b bits =>
    cases b <;> exact Nat.lt_succ_of_le (length_le_of_decode? h)

end Trie

end EntitlementAuthority
