import EntitlementAuthority.PathTree.Decode
import EntitlementAuthority.PrefixCode.Bits
import EntitlementAuthority.Table
import Mathlib.Algebra.GroupWithZero.Nat

/-!
# Tries in a list of nodes

The nodes of a trie are kept in a list, where a node names the places of the nodes below it. Nodes
stand behind those below them, so that every way down ends.

* `LinkedTrie` — nodes and the place of the root.
* `LinkedTrie.codes` — the codes, collected with a stack of nodes that are still to be visited.
* `LinkedTrie.decode` — reads one symbol.
* `BitWriter.write` — writes symbols, each with the code that a table has for it.
* `Worklist`, `Worklist.run` — the tries that wait to be joined, in the order in which they came; in
  each round the two lightest are looked for, the second with the one found first left out.
* `smallest_isFirstLeast` — the first of the least weights is found.
* `LinkedTrie.build` — the linked trie of weighted symbols.
-/

namespace EntitlementAuthority

/-- A node of a linked trie: a symbol, or the places of the nodes on the side of the zeros and of
the ones. -/
structure TrieNode where
  symbol : Option Nat
  zero : Option Nat
  one : Option Nat
deriving DecidableEq, Repr

namespace TrieNode

/-- A node with a symbol. -/
def leaf (symbol : Nat) : TrieNode :=
  ⟨some symbol, none, none⟩

/-- A node above two others, the first of them on the side of the zeros. -/
def fork (m k : Nat) : TrieNode :=
  ⟨none, some m, some k⟩

/-- The place of the node that a bit leads to. -/
def next (node : TrieNode) (bit : Bool) : Option Nat :=
  if bit then node.one else node.zero

/-- The nodes below a node with the bits that lead to them, the side of the ones in front. -/
def below (node : TrieNode) (path : List Bool) : List (Nat × List Bool) :=
  (node.one.toList.map fun n => (n, path ++ [true]))
    ++ node.zero.toList.map fun n => (n, path ++ [false])

end TrieNode

/-- The nodes below a node stand before it. -/
def Grounded (nodes : List TrieNode) : Prop :=
  ∀ (n : Nat) (node : TrieNode), nodes[n]? = some node → ∀ bit m, node.next bit = some m → m < n

/-- Nodes, those below a node before it, and the place of the root. -/
structure LinkedTrie where
  nodes : List TrieNode
  root : Nat
  grounded : Grounded nodes

/-- Why something is not done with a linked trie. -/
inductive TrieStop where
  /-- It is reported as a fault. -/
  | fault (f : Fault)
  /-- A place is looked at where no node is. -/
  | noNode
  /-- Two weights have a sum that does not fit a machine word. -/
  | overflow
deriving DecidableEq, Repr

/-- A stack weighs less with the nodes below a node than with the node. -/
theorem TrieNode.weight_below_lt {nodes : List TrieNode} (hgrounded : Grounded nodes) {n : Nat}
    {node : TrieNode} (h : nodes[n]? = some node) (path : List Bool) :
    ((node.below path).map fun e => 3 ^ e.1).sum < 3 ^ n := by
  have hside : ∀ bit, ((node.next bit).toList.map fun m => 3 ^ m).sum * 3 ≤ 3 ^ n := by
    intro bit
    cases hm : node.next bit with
    | none => exact Nat.zero_le _
    | some m =>
      have hpow := Nat.pow_le_pow_right (n := 3) (by decide) (hgrounded n node h bit m hm)
      rwa [Nat.pow_succ] at hpow
  have hone := hside true
  have hzero := hside false
  have hpos := Nat.pow_pos (n := n) (show 0 < 3 by decide)
  simp only [TrieNode.next, Bool.false_eq_true, if_true, if_false] at hone hzero
  simp only [TrieNode.below, List.map_append, List.map_map, Function.comp_def, List.sum_append]
  omega

namespace LinkedTrie

/-! ### Codes and symbols -/

/-- Visits the nodes of a stack, and those below a node before the next one; a code is put into the
table where there is a symbol. -/
def collect (t : LinkedTrie) :
    List (Nat × List Bool) → Table Nat (List Bool) → Except TrieStop (Table Nat (List Bool))
  | [], table => .ok table
  | (n, path) :: stack, table =>
    match _h : t.nodes[n]? with
    | none => .error .noNode
    | some node =>
      match node.symbol with
      | some symbol => t.collect stack (table.insert symbol path)
      | none => t.collect (node.below path ++ stack) table
termination_by stack => (stack.map fun e => 3 ^ e.1).sum
decreasing_by
  · have hpos := Nat.pow_pos (n := n) (show 0 < 3 by decide)
    rw [List.map_cons, List.sum_cons]
    dsimp only
    omega
  · have hlt := TrieNode.weight_below_lt t.grounded _h path
    rw [List.map_append, List.sum_append, List.map_cons, List.sum_cons]
    dsimp only
    omega

/-- Every symbol with its code. -/
def codes (t : LinkedTrie) : Except TrieStop (Table Nat (List Bool)) :=
  t.collect [(t.root, [])] Table.empty

/-- Follows bits from a node down to a symbol. -/
def decodeFrom (t : LinkedTrie) (n : Nat) (r : BitReader) : Except TrieStop (Nat × BitReader) :=
  match _h : t.nodes[n]? with
  | none => .error .noNode
  | some node =>
    match node.symbol with
    | some symbol => .ok (symbol, r)
    | none =>
      match r.next with
      | none => .error (.fault TreeDefect.endedMidCode.fault)
      | some (bit, r) =>
        match _hm : node.next bit with
        | none => .error (.fault (.malformed "code not present in trie"))
        | some m => t.decodeFrom m r
termination_by n
decreasing_by exact t.grounded n node _h bit m _hm

/-- Reads a symbol. -/
def decode (t : LinkedTrie) (r : BitReader) : Except TrieStop (Nat × BitReader) :=
  t.decodeFrom t.root r

/-- Reads symbols one after the other, and tells of each how many bits it takes. -/
def decodeMany (t : LinkedTrie) : Nat → BitReader → Except TrieStop (List (Nat × Nat))
  | 0, _ => .ok []
  | count + 1, r => do
    let (symbol, r') ← t.decode r
    let symbols ← t.decodeMany count r'
    .ok ((symbol, r'.position - r.position) :: symbols)

/-- The code that a table has for a symbol; it is a fault if there is none. -/
def codeOf (table : Table Nat (List Bool)) (symbol : Nat) : Except TrieStop (List Bool) :=
  match table.get? symbol with
  | some code => .ok code
  | none => .error (.fault (.creation "content path symbol missing from Huffman trie"))

end LinkedTrie

/-- Writes the codes of symbols, one after the other. -/
def BitWriter.write (table : Table Nat (List Bool)) :
    BitWriter → List Nat → Except TrieStop BitWriter
  | w, [] => .ok w
  | w, symbol :: symbols => do
    let code ← LinkedTrie.codeOf table symbol
    (w.extend code).write table symbols

/-! ### Searching -/

/-- The better of the place found so far and another one, of equal weights the one found before.
One place may be left out. -/
def lighter (weight : Nat → Nat) (exclude best : Option Nat) (n : Nat) : Option Nat :=
  if some n = exclude then best
  else
    match best with
    | some s => if weight s ≤ weight n then some s else some n
    | none => some n

/-- The place of the first of the least weights, where one place may be left out. -/
def smallest (weight : Nat → Nat) (count : Nat) (exclude : Option Nat) : Nat :=
  ((List.range count).foldl (lighter weight exclude) none).getD 0

/-- The first of the least weights among some first places, of which one may be left out. -/
structure IsFirstLeast (weight : Nat → Nat) (exclude : Option Nat) (count s : Nat) : Prop where
  lt : s < count
  kept : some s ≠ exclude
  least : ∀ n < count, some n ≠ exclude → weight s ≤ weight n
  first : ∀ n < s, some n ≠ exclude → weight s < weight n

section Searching

variable {weight : Nat → Nat} {exclude : Option Nat} {count s : Nat}

/-- A further place that is not lighter changes nothing. -/
theorem IsFirstLeast.succ (h : IsFirstLeast weight exclude count s)
    (hle : some count ≠ exclude → weight s ≤ weight count) :
    IsFirstLeast weight exclude (count + 1) s := by
  refine ⟨Nat.lt_succ_of_lt h.lt, h.kept, fun n hn hne => ?_, h.first⟩
  rcases Nat.lt_succ_iff_lt_or_eq.1 hn with hn | rfl
  · exact h.least n hn hne
  · exact hle hne

/-- A further place that is lighter than all before is the first of the least. -/
theorem isFirstLeast_last (hkept : some count ≠ exclude)
    (hless : ∀ n < count, some n ≠ exclude → weight count < weight n) :
    IsFirstLeast weight exclude (count + 1) count := by
  refine ⟨Nat.lt_succ_self count, hkept, fun n hn hne => ?_, hless⟩
  rcases Nat.lt_succ_iff_lt_or_eq.1 hn with hn | rfl
  · exact Nat.le_of_lt (hless n hn hne)
  · exact Nat.le_refl _

/-- What is known after some places. -/
def Found (weight : Nat → Nat) (exclude : Option Nat) (count : Nat) : Option Nat → Prop
  | some s => IsFirstLeast weight exclude count s
  | none => ∀ n < count, some n = exclude

theorem Found.step {best : Option Nat} (h : Found weight exclude count best) :
    Found weight exclude (count + 1) (lighter weight exclude best count) := by
  unfold lighter
  split
  · rename_i hexclude
    cases best with
    | none =>
      intro n hn
      rcases Nat.lt_succ_iff_lt_or_eq.1 hn with hn | rfl
      · exact h n hn
      · exact hexclude
    | some s => exact IsFirstLeast.succ h fun hne => absurd hexclude hne
  · rename_i hkept
    cases best with
    | none => exact isFirstLeast_last hkept fun n hn hne => absurd (h n hn) hne
    | some s =>
      dsimp only
      split
      · rename_i hle
        exact IsFirstLeast.succ h fun _ => hle
      · rename_i hle
        exact isFirstLeast_last hkept fun n hn hne =>
          Nat.lt_of_lt_of_le (Nat.lt_of_not_le hle) (h.least n hn hne)

theorem found_foldl (weight : Nat → Nat) (exclude : Option Nat) (count : Nat) :
    Found weight exclude count ((List.range count).foldl (lighter weight exclude) none) := by
  induction count with
  | zero => exact fun n hn => absurd hn (Nat.not_lt_zero n)
  | succ count ih =>
    rw [List.range_succ, List.foldl_append, List.foldl_cons, List.foldl_nil]
    exact ih.step

/-- **The first of the least weights is found**, if there is a place besides the one left out. -/
theorem smallest_isFirstLeast {n : Nat} (hn : n < count) (hne : some n ≠ exclude) :
    IsFirstLeast weight exclude count (smallest weight count exclude) := by
  have hfound := found_foldl weight exclude count
  unfold smallest
  cases hbest : (List.range count).foldl (lighter weight exclude) none with
  | none =>
    rw [hbest] at hfound
    exact absurd (hfound n hn) hne
  | some s =>
    rw [hbest] at hfound
    exact hfound

/-- Of two or more places, one is found and then another. -/
theorem smallest_isFirstLeast_twice (weight : Nat → Nat) (h : 1 < count) :
    IsFirstLeast weight none count (smallest weight count none) ∧
      IsFirstLeast weight (some (smallest weight count none)) count
        (smallest weight count (some (smallest weight count none))) := by
  refine ⟨smallest_isFirstLeast (Nat.lt_of_succ_lt h) nofun, ?_⟩
  by_cases hzero : smallest weight count none = 0
  · exact smallest_isFirstLeast h fun heq => Nat.one_ne_zero ((Option.some.inj heq).trans hzero)
  · exact smallest_isFirstLeast (Nat.lt_of_succ_lt h) fun heq => hzero (Option.some.inj heq).symm

end Searching

/-! ### Tries that wait -/

/-- Two places are taken out. -/
theorem length_eraseIdx_max_min {α : Type} {l : List α} {s t : Nat} (hs : s < l.length)
    (ht : t < l.length) (hne : t ≠ s) :
    ((l.eraseIdx (max s t)).eraseIdx (min s t)).length + 2 = l.length := by
  have hmax : (l.eraseIdx (max s t)).length = l.length - 1 :=
    List.length_eraseIdx_of_lt (by omega)
  rw [List.length_eraseIdx_of_lt (by omega), hmax]
  omega

/-- Nodes, and the tries that wait to be joined: the place of the root of each, and its weight. -/
structure Worklist where
  nodes : List TrieNode
  pending : List (Nat × UInt64)
  grounded : Grounded nodes
  pending_lt : ∀ e ∈ pending, e.1 < nodes.length

theorem grounded_leaves (symbols : List Nat) : Grounded (symbols.map TrieNode.leaf) := by
  intro n node hn bit m hm
  rw [List.getElem?_map] at hn
  obtain ⟨symbol, -, rfl⟩ := Option.map_eq_some_iff.1 hn
  cases bit <;> cases hm

theorem Grounded.fork {nodes : List TrieNode} (h : Grounded nodes) {m k : Nat}
    (hm : m < nodes.length) (hk : k < nodes.length) : Grounded (nodes ++ [.fork m k]) := by
  intro n node hn bit l hl
  rcases Nat.lt_trichotomy n nodes.length with hlt | rfl | hgt
  · rw [List.getElem?_append_left hlt] at hn
    exact h n node hn bit l hl
  · rw [List.getElem?_concat_length] at hn
    cases hn
    cases bit <;> cases hl <;> assumption
  · rw [List.getElem?_eq_none (by rw [List.length_append]; exact hgt)] at hn
    cases hn

namespace Worklist

/-- A leaf for every symbol, in the given order. -/
def ofLeaves (leaves : List (Nat × UInt64)) : Worklist where
  nodes := (leaves.map Prod.fst).map .leaf
  pending := leaves.mapIdx fun n leaf => (n, leaf.2)
  grounded := grounded_leaves _
  pending_lt := by
    intro e he
    obtain ⟨n, hn, rfl⟩ := List.mem_mapIdx.1 he
    rwa [List.length_map, List.length_map]

/-- The weight of a trie that waits. -/
def weightAt (pending : List (Nat × UInt64)) (n : Nat) : Nat :=
  (pending.getD n (0, 0)).2.toNat

/-- Joins the tries at two places; the joined trie waits behind all others. -/
def join (w : Worklist) (s t : Nat) (hs : s < w.pending.length) (ht : t < w.pending.length) :
    Worklist where
  nodes := w.nodes ++ [.fork w.pending[s].1 w.pending[t].1]
  -- the one further behind is taken out first, so that the place of the other stays
  pending := (w.pending.eraseIdx (max s t)).eraseIdx (min s t)
    ++ [(w.nodes.length, w.pending[s].2 + w.pending[t].2)]
  grounded := w.grounded.fork (w.pending_lt _ (List.getElem_mem hs))
    (w.pending_lt _ (List.getElem_mem ht))
  pending_lt := by
    intro e he
    rw [List.length_append, List.length_singleton]
    rcases List.mem_append.1 he with he | he
    · exact Nat.lt_succ_of_lt
        (w.pending_lt e (List.mem_of_mem_eraseIdx (List.mem_of_mem_eraseIdx he)))
    · cases List.mem_singleton.1 he
      exact Nat.lt_succ_self _

/-- One round: the two lightest tries are taken out of those that wait, and joined. -/
def joinLightest (w : Worklist) : Except TrieStop Worklist :=
  let first := smallest (weightAt w.pending) w.pending.length none
  let second := smallest (weightAt w.pending) w.pending.length (some first)
  if h : first < w.pending.length ∧ second < w.pending.length then
    if w.pending[first].2.toNat + w.pending[second].2.toNat < 2 ^ 64 then
      .ok (w.join first second h.1 h.2)
    else .error .overflow
  else .error .noNode

variable {w w' : Worklist}

/-- A round with two tries or more: two places with the least weights are found and joined. -/
theorem joinLightest_eq (h : 1 < w.pending.length) :
    ∃ s t, ∃ hs : IsFirstLeast (weightAt w.pending) none w.pending.length s,
      ∃ ht : IsFirstLeast (weightAt w.pending) (some s) w.pending.length t,
      w.joinLightest =
        if (w.pending.get ⟨s, hs.lt⟩).2.toNat + (w.pending.get ⟨t, ht.lt⟩).2.toNat < 2 ^ 64 then
          .ok (w.join s t hs.lt ht.lt)
        else .error .overflow := by
  obtain ⟨hs, ht⟩ := smallest_isFirstLeast_twice (weightAt w.pending) h
  refine ⟨_, _, hs, ht, ?_⟩
  unfold joinLightest
  dsimp only
  rw [dif_pos ⟨hs.lt, ht.lt⟩]
  rfl

/-- A round leaves one trie less. -/
theorem length_joinLightest (h : 1 < w.pending.length) (hjoin : w.joinLightest = .ok w') :
    w'.pending.length < w.pending.length := by
  obtain ⟨s, t, hs, ht, heq⟩ := joinLightest_eq h
  rw [heq] at hjoin
  split at hjoin
  · cases hjoin
    have hlength := length_eraseIdx_max_min hs.lt ht.lt fun hts => ht.kept (congrArg some hts)
    show (_ ++ [_]).length < _
    rw [List.length_append, List.length_singleton]
    omega
  · cases hjoin

/-- Rounds until one trie is left. -/
def run (w : Worklist) : Except TrieStop LinkedTrie :=
  if _h : 1 < w.pending.length then
    match _hjoin : w.joinLightest with
    | .error e => .error e
    | .ok w' => w'.run
  else
    match w.pending.head? with
    | none => .error .noNode
    | some e => .ok ⟨w.nodes, e.1, w.grounded⟩
termination_by w.pending.length
decreasing_by exact length_joinLightest _h _hjoin

theorem run_of_joinLightest (h : 1 < w.pending.length) (hjoin : w.joinLightest = .ok w') :
    w.run = w'.run := by
  rw [run, dif_pos h]
  split
  · rename_i heq
    rw [hjoin] at heq
    cases heq
  · rename_i heq
    rw [hjoin] at heq
    cases heq
    rfl

theorem run_of_single {e : Nat × UInt64} (h : w.pending = [e]) :
    w.run = .ok ⟨w.nodes, e.1, w.grounded⟩ := by
  rw [run, dif_neg (by rw [h]; exact Nat.lt_irrefl 1), h]
  rfl

end Worklist

/-- The linked trie for symbols with their weights. -/
def LinkedTrie.build (leaves : List (Nat × UInt64)) : Except TrieStop LinkedTrie :=
  if leaves.isEmpty then .error (.fault TreeDefect.noSymbols.fault)
  else (Worklist.ofLeaves leaves).run

end EntitlementAuthority
