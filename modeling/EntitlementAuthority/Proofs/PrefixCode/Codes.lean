import EntitlementAuthority.PrefixCode.Bits
import EntitlementAuthority.PrefixCode.Trie
import Mathlib.Data.List.Nodup
import Mathlib.Data.List.Perm.Basic

/-!
# Reading back what is written with a prefix code

* `Bits.ofBytes_toBytes` — bytes hold the bits they are made from, with zeros behind them.
* `Trie.mem_symbols_ofLeaves?`, `Trie.symbols_ofLeaves?_perm` — the trie for weighted symbols has
  each of them at a leaf.
* `Trie.ofLeaves?_pair` — the trie for two symbols.
* `Trie.decode?_code` — a trie reads the code of a symbol back, whatever stands behind it.
* `Trie.mem_symbols_of_decode?` — whatever the bits are, a symbol of the trie is read.
* `Trie.eq_code_of_decode?` — and the bits begin with its code.
-/

namespace EntitlementAuthority

namespace Bits

@[simp] theorem ofByte_toByte (b7 b6 b5 b4 b3 b2 b1 b0 : Bool) :
    ofByte (toByte b7 b6 b5 b4 b3 b2 b1 b0) = [b7, b6, b5, b4, b3, b2, b1, b0] := by
  cases b7 <;> cases b6 <;> cases b5 <;> cases b4 <;> cases b3 <;> cases b2 <;> cases b1 <;>
    cases b0 <;> rfl

theorem ofBytes_cons (b : UInt8) (bytes : Bytes) :
    ofBytes (b :: bytes) = ofByte b ++ ofBytes bytes :=
  rfl

/-- Bytes hold the bits that they are made from, and zeros behind them. -/
theorem ofBytes_toBytes (bits : List Bool) :
    ∃ count, ofBytes (toBytes bits) = bits ++ List.replicate count false := by
  fun_induction toBytes bits with
  | case1 b7 b6 b5 b4 b3 b2 b1 b0 bits ih =>
    obtain ⟨count, hcount⟩ := ih
    refine ⟨count, ?_⟩
    rw [ofBytes_cons, ofByte_toByte, hcount]
    rfl
  | case2 => exact ⟨0, rfl⟩
  | case3 bits hlong hne bit =>
    -- one to seven bits
    refine ⟨8 - bits.length, ?_⟩
    rw [ofBytes_cons, ofByte_toByte]
    rcases bits with
      _ | ⟨b7, _ | ⟨b6, _ | ⟨b5, _ | ⟨b4, _ | ⟨b3, _ | ⟨b2, _ | ⟨b1, _ | ⟨b0, bits⟩⟩⟩⟩⟩⟩⟩⟩
    · exact absurd rfl hne
    all_goals first | rfl | exact absurd rfl (hlong _ _ _ _ _ _ _ _ _)

end Bits

namespace Trie

/-! ### Symbols -/

/-- The symbols at the leaves, from left to right. -/
def symbols : Trie → List Nat
  | leaf symbol => [symbol]
  | node zero one => zero.symbols ++ one.symbols

theorem enqueue_perm (t : WeightedTrie) (us : List WeightedTrie) :
    (enqueue t us).Perm (t :: us) := by
  induction us with
  | nil => exact .refl _
  | cons u us ih =>
    unfold enqueue
    split
    · exact (ih.cons u).trans (.swap t u us)
    · exact .refl _

/-- Joining keeps all symbols. -/
theorem mem_symbols_joinAll {queue : List WeightedTrie} {t : Trie} (h : joinAll queue = some t)
    (symbol : Nat) : symbol ∈ t.symbols ↔ ∃ u ∈ queue, symbol ∈ u.trie.symbols := by
  fun_induction joinAll queue with
  | case1 => cases h
  | case2 u =>
    cases h
    simp only [List.mem_singleton, exists_eq_left]
  | case3 u v us ih =>
    have hperm := enqueue_perm ⟨u.weight + v.weight, node u.trie v.trie⟩ us
    rw [ih h]
    simp only [hperm.mem_iff, List.mem_cons, exists_eq_or_imp, symbols, List.mem_append, or_assoc]

theorem mem_queue {leaves : List (Nat × Nat)} {u : WeightedTrie} :
    u ∈ queue leaves ↔ ∃ x ∈ leaves, u = ⟨x.2, leaf x.1⟩ := by
  unfold queue
  rw [List.mem_mergeSort, List.mem_map]
  exact exists_congr fun x => and_congr_right fun _ => eq_comm

/-- The trie for weighted symbols has just these. -/
theorem mem_symbols_ofLeaves? {leaves : List (Nat × Nat)} {t : Trie}
    (h : ofLeaves? leaves = some t) (symbol : Nat) :
    symbol ∈ t.symbols ↔ symbol ∈ leaves.map Prod.fst := by
  rw [mem_symbols_joinAll h]
  simp only [mem_queue, List.mem_map]
  constructor
  · rintro ⟨u, ⟨x, hx, rfl⟩, hsymbol⟩
    exact ⟨x, hx, (List.mem_singleton.1 hsymbol).symm⟩
  · rintro ⟨x, hx, rfl⟩
    exact ⟨_, ⟨x, hx, rfl⟩, List.mem_singleton_self x.1⟩

/-- Joining keeps the symbols, each as often as it is there. -/
theorem symbols_joinAll_perm {queue : List WeightedTrie} {t : Trie} (h : joinAll queue = some t) :
    t.symbols.Perm (queue.flatMap fun u => u.trie.symbols) := by
  fun_induction joinAll queue with
  | case1 => cases h
  | case2 u =>
    cases h
    rw [List.flatMap_singleton]
  | case3 u v us ih =>
    have hperm := enqueue_perm ⟨u.weight + v.weight, node u.trie v.trie⟩ us
    refine (ih h).trans ((hperm.flatMap_right _).trans ?_)
    rw [List.flatMap_cons, List.flatMap_cons, List.flatMap_cons, symbols, List.append_assoc]

/-- The trie for weighted symbols has each of them as often as it is given. -/
theorem symbols_ofLeaves?_perm {leaves : List (Nat × Nat)} {t : Trie}
    (h : ofLeaves? leaves = some t) : t.symbols.Perm (leaves.map Prod.fst) := by
  have hqueue : (queue leaves).Perm (leaves.map fun x => ⟨x.2, leaf x.1⟩) := List.mergeSort_perm _ _
  refine (symbols_joinAll_perm h).trans ((hqueue.flatMap_right _).trans ?_)
  rw [List.flatMap_map]
  exact .of_eq List.map_eq_flatMap.symm

theorem isNode_of_joinAll {queue : List WeightedTrie} {t : Trie} (h : joinAll queue = some t)
    (hlength : 2 ≤ queue.length) : ∃ zero one, t = node zero one := by
  fun_induction joinAll queue with
  | case1 => cases h
  | case2 u => exact absurd hlength (Nat.lt_irrefl 1)
  | case3 u v us ih =>
    cases us with
    | nil =>
      rw [enqueue, joinAll] at h
      exact ⟨_, _, (Option.some.inj h).symm⟩
    | cons w us =>
      refine ih h ?_
      rw [length_enqueue, List.length_cons]
      omega

/-- The trie for two or more symbols is not a leaf. -/
theorem isNode_of_ofLeaves? {leaves : List (Nat × Nat)} {t : Trie} (h : ofLeaves? leaves = some t)
    (hlength : 2 ≤ leaves.length) : ∃ zero one, t = node zero one := by
  refine isNode_of_joinAll h ?_
  rwa [queue, List.length_mergeSort, List.length_map]

/-- Of two symbols, the lighter one stands on the side of the zeros. -/
theorem ofLeaves?_pair {s t v w : Nat} (h : v ≤ w) :
    ofLeaves? [(s, v), (t, w)] = some (node (leaf s) (leaf t)) := by
  have hqueue : queue [(s, v), (t, w)] = [⟨v, leaf s⟩, ⟨w, leaf t⟩] :=
    List.mergeSort_of_pairwise (by simp [h])
  rw [ofLeaves?, hqueue, joinAll, enqueue, joinAll]

/-! ### Codes -/

theorem map_fst_codes (t : Trie) : t.codes.map Prod.fst = t.symbols := by
  induction t with
  | leaf symbol => rfl
  | node zero one ihzero ihone =>
    simp only [codes, symbols, List.map_append, List.map_map, ← ihzero, ← ihone]
    rfl

/-- What a trie has as a code, it reads back. -/
theorem decode?_of_mem_codes {t : Trie} {symbol : Nat} {bits : List Bool}
    (h : (symbol, bits) ∈ t.codes) (rest : List Bool) :
    t.decode? (bits ++ rest) = some (symbol, rest) := by
  induction t generalizing bits with
  | leaf s =>
    cases List.mem_singleton.1 h
    rfl
  | node zero one ihzero ihone =>
    rcases List.mem_append.1 h with h | h
    · obtain ⟨⟨s, code⟩, hcode, heq⟩ := List.mem_map.1 h
      cases heq
      exact ihzero hcode
    · obtain ⟨⟨s, code⟩, hcode, heq⟩ := List.mem_map.1 h
      cases heq
      exact ihone hcode

theorem lookup_codes {t : Trie} {symbol : Nat} (h : symbol ∈ t.symbols) :
    t.codes.lookup symbol = some (t.code symbol) ∧ (symbol, t.code symbol) ∈ t.codes := by
  rw [← map_fst_codes, List.mem_map] at h
  obtain ⟨⟨s, bits⟩, hbits, rfl⟩ := h
  have hsome : (t.codes.lookup s).isSome = true :=
    List.lookup_isSome_iff.2 ⟨(s, bits), hbits, beq_self_eq_true s⟩
  obtain ⟨found, hfound⟩ := Option.isSome_iff_exists.1 hsome
  obtain ⟨before, after, hcodes, -⟩ := List.lookup_eq_some_iff.1 hfound
  rw [code, hfound]
  refine ⟨rfl, ?_⟩
  rw [hcodes]
  exact List.mem_append_right before List.mem_cons_self

/-- **A trie reads the code of each of its symbols back.** -/
theorem decode?_code {t : Trie} {symbol : Nat} (h : symbol ∈ t.symbols) (rest : List Bool) :
    t.decode? (t.code symbol ++ rest) = some (symbol, rest) :=
  decode?_of_mem_codes (lookup_codes h).2 rest

/-- Whatever the bits are, a symbol of the trie is read from them. -/
theorem mem_symbols_of_decode? {t : Trie} {bits rest : List Bool} {symbol : Nat}
    (h : t.decode? bits = some (symbol, rest)) : symbol ∈ t.symbols := by
  fun_induction decode? t bits with
  | case1 symbol' bits =>
    cases h
    exact List.mem_singleton_self _
  | case2 => cases h
  | case3 zero one bits ih => exact List.mem_append_left _ (ih h)
  | case4 zero one bits ih => exact List.mem_append_right _ (ih h)

/-- What is read is a code of the symbol. -/
theorem exists_code_of_decode? {t : Trie} {bits rest : List Bool} {symbol : Nat}
    (h : t.decode? bits = some (symbol, rest)) :
    ∃ code, (symbol, code) ∈ t.codes ∧ bits = code ++ rest := by
  fun_induction decode? t bits with
  | case1 symbol' bits =>
    cases h
    exact ⟨[], List.mem_singleton_self _, rfl⟩
  | case2 => cases h
  | case3 zero one bits ih =>
    obtain ⟨code, hcode, rfl⟩ := ih h
    exact ⟨false :: code, List.mem_append_left _ (List.mem_map_of_mem hcode), rfl⟩
  | case4 zero one bits ih =>
    obtain ⟨code, hcode, rfl⟩ := ih h
    exact ⟨true :: code, List.mem_append_right _ (List.mem_map_of_mem hcode), rfl⟩

/-- A symbol that stands at one leaf has one code. -/
theorem code_eq_of_mem_codes {t : Trie} (hnodup : t.symbols.Nodup) {symbol : Nat}
    {code : List Bool} (h : (symbol, code) ∈ t.codes) : t.code symbol = code := by
  have hsymbol : symbol ∈ t.symbols := map_fst_codes t ▸ List.mem_map_of_mem h
  rw [← map_fst_codes] at hnodup
  exact congrArg Prod.snd (List.inj_on_of_nodup_map hnodup (lookup_codes hsymbol).2 h rfl)

/-- **What is read off the front of some bits is the code of the symbol**, if no symbol stands at
two leaves. -/
theorem eq_code_of_decode? {t : Trie} (hnodup : t.symbols.Nodup) {bits rest : List Bool}
    {symbol : Nat} (h : t.decode? bits = some (symbol, rest)) : bits = t.code symbol ++ rest := by
  obtain ⟨code, hcode, hbits⟩ := exists_code_of_decode? h
  rw [code_eq_of_mem_codes hnodup hcode, hbits]

/-- In a trie that is not a leaf, no symbol goes without bits. -/
theorem code_ne_nil {zero one : Trie} {symbol : Nat} (h : symbol ∈ (node zero one).symbols) :
    (node zero one).code symbol ≠ [] := by
  have hcode := (lookup_codes h).2
  rcases List.mem_append.1 hcode with hcode | hcode
  all_goals
    obtain ⟨x, -, hx⟩ := List.mem_map.1 hcode
    intro hnil
    rw [hnil] at hx
    cases hx

end Trie

end EntitlementAuthority
