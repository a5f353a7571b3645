import EntitlementAuthority.PrefixCode.LinkedTrie
import EntitlementAuthority.Proofs.PrefixCode.BitStream
import EntitlementAuthority.Proofs.PrefixCode.Codes

/-!
# Linked tries and tries

A linked trie stands for a trie: it has the same codes and reads the same symbols.

* `Represents` — the nodes from a place downwards are a trie.
* `LinkedTrie.codes_of_represents` — the codes are those of the trie.
* `LinkedTrie.decodeFrom_of_represents` — what is read is what the trie reads.
-/

namespace EntitlementAuthority

/-! ### The trie that nodes stand for -/

/-- The nodes from a place downwards are a trie. -/
inductive Represents (nodes : List TrieNode) : Nat → Trie → Prop
  | leaf {n symbol : Nat} (h : nodes[n]? = some (.leaf symbol)) : Represents nodes n (.leaf symbol)
  | node {n m k : Nat} {zero one : Trie} (h : nodes[n]? = some (.fork m k))
      (hzero : Represents nodes m zero) (hone : Represents nodes k one) :
      Represents nodes n (.node zero one)

/-- More nodes do not change what stands below one. -/
theorem Represents.mono {nodes nodes' : List TrieNode} (hgrown : nodes <+: nodes') {n : Nat}
    {u : Trie} (h : Represents nodes n u) : Represents nodes' n u := by
  have hget : ∀ {n : Nat} {node : TrieNode}, nodes[n]? = some node → nodes'[n]? = some node := by
    intro n node hn
    obtain ⟨more, rfl⟩ := hgrown
    obtain ⟨hlt, -⟩ := List.getElem?_eq_some_iff.1 hn
    rw [List.getElem?_append_left hlt, hn]
  induction h with
  | leaf h => exact .leaf (hget h)
  | node h _ _ ihzero ihone => exact .node (hget h) ihzero ihone

namespace LinkedTrie

variable {t : LinkedTrie} {n : Nat} {u : Trie}

/-- The codes of a trie behind the bits that lead to it, in the order in which they are collected.
-/
def codesBehind (path : List Bool) (u : Trie) : List (Nat × List Bool) :=
  u.codes.reverse.map fun e => (e.1, path ++ e.2)

theorem codesBehind_node (path : List Bool) (zero one : Trie) :
    codesBehind path (.node zero one) =
      codesBehind (path ++ [true]) one ++ codesBehind (path ++ [false]) zero := by
  simp only [codesBehind, Trie.codes, List.reverse_append, List.map_append, ← List.map_reverse,
    List.map_map, Function.comp_def, List.append_assoc, List.singleton_append]

section Node

variable {node : TrieNode} (h : t.nodes[n]? = some node)
include h

/-- What is done with the node on top of the stack. -/
theorem collect_node (path : List Bool) (stack : List (Nat × List Bool))
    (table : Table Nat (List Bool)) : t.collect ((n, path) :: stack) table =
      match node.symbol with
      | some symbol => t.collect stack (table.insert symbol path)
      | none => t.collect (node.below path ++ stack) table := by
  rw [collect]
  split
  · rename_i hn
    rw [h] at hn
    cases hn
  · rename_i hn
    rw [h] at hn
    cases hn
    rfl

/-- What is done at a node that bits have led to. -/
theorem decodeFrom_node (r : BitReader) : t.decodeFrom n r =
    match node.symbol with
    | some symbol => .ok (symbol, r)
    | none =>
      match r.next with
      | none => .error (.fault TreeDefect.endedMidCode.fault)
      | some (bit, r) =>
        match node.next bit with
        | none => .error (.fault (.malformed "code not present in trie"))
        | some m => t.decodeFrom m r := by
  rw [decodeFrom]
  split
  · rename_i hn
    rw [h] at hn
    cases hn
  · rename_i hn
    rw [h] at hn
    cases hn
    cases node.symbol with
    | some symbol => rfl
    | none =>
      cases r.next with
      | none => rfl
      | some next =>
        dsimp only
        split <;> simp_all only

end Node

/-- A node on top of the stack is left with all codes from it downwards in the table. -/
theorem collect_of_represents (h : Represents t.nodes n u) {path : List Bool}
    {table : Table Nat (List Bool)} (stack : List (Nat × List Bool))
    (hnodup : ((table.entries ++ codesBehind path u).map Prod.fst).Nodup) :
    ∃ table', t.collect ((n, path) :: stack) table = t.collect stack table' ∧
      table'.entries = table.entries ++ codesBehind path u := by
  induction h generalizing path table stack with
  | @leaf n symbol h =>
    refine ⟨table.insert symbol path, collect_node h path stack table, ?_⟩
    have hleaf : codesBehind path (.leaf symbol) = [(symbol, path)] := by
      simp [codesBehind, Trie.codes]
    rw [hleaf] at hnodup ⊢
    refine Table.entries_insert_of_notMem (fun hmem => ?_) path
    rw [List.map_append, List.nodup_append] at hnodup
    exact hnodup.2.2 symbol hmem symbol (List.mem_singleton_self _) rfl
  | @node n m k zero one h _ _ ihzero ihone =>
    rw [codesBehind_node, ← List.append_assoc] at hnodup ⊢
    have hnodupOne : ((table.entries ++ codesBehind (path ++ [true]) one).map Prod.fst).Nodup := by
      rw [List.map_append] at hnodup
      exact hnodup.of_append_left
    obtain ⟨table', hcollect, hentries⟩ := ihone ((m, path ++ [false]) :: stack) hnodupOne
    rw [← hentries] at hnodup ⊢
    obtain ⟨table'', hcollect', hentries'⟩ := ihzero stack hnodup
    refine ⟨table'', ?_, hentries'⟩
    rw [← hcollect', ← hcollect]
    exact collect_node h path stack table

/-- **The codes are those of the trie**, if no symbol stands at two leaves. -/
theorem codes_of_represents (h : Represents t.nodes t.root u) (hnodup : u.symbols.Nodup) :
    ∃ table, t.codes = .ok table ∧ table.entries = u.codes.reverse := by
  have hbehind : codesBehind [] u = u.codes.reverse := by
    simp only [codesBehind, List.nil_append, List.map_id']
  have hkeys : (((Table.empty : Table Nat (List Bool)).entries ++ codesBehind [] u).map
      Prod.fst).Nodup := by
    rw [hbehind]
    show (u.codes.reverse.map Prod.fst).Nodup
    rwa [List.map_reverse, List.nodup_reverse, Trie.map_fst_codes]
  obtain ⟨table, hcollect, hentries⟩ := collect_of_represents h [] hkeys
  refine ⟨table, ?_, ?_⟩
  · rw [codes, hcollect, collect]
  · rw [hentries, hbehind]
    rfl

/-- What comes of a symbol that a trie reads and the bits that it leaves: the symbol, and the reader
behind its bits. -/
def readAs (r : BitReader) : Option (Nat × List Bool) → Except TrieStop (Nat × BitReader)
  | some (symbol, rest) => .ok (symbol, r.advance (r.rest.length - rest.length))
  | none => .error (.fault TreeDefect.endedMidCode.fault)

/-- A bit more in front of what a trie reads. -/
theorem readAs_advance {r : BitReader} {bit : Bool} {bits : List Bool}
    (hrest : r.rest = bit :: bits) (u : Trie) : readAs (r.advance 1) (u.decode? bits) = readAs r (u.decode? bits) := by
  cases hread : u.decode? bits with
  | none => rfl
  | some found =>
    have hle := Trie.length_le_of_decode? hread
    rw [readAs, readAs, BitReader.rest_advance, hrest, List.drop_one, List.tail_cons,
      BitReader.advance_advance, List.length_cons, Nat.add_comm bits.length, Nat.add_sub_assoc hle]

/-- **The same is read as with the trie**, whatever the bits are. -/
theorem decodeFrom_of_represents (h : Represents t.nodes n u) (r : BitReader) :
    t.decodeFrom n r = readAs r (u.decode? r.rest) := by
  induction h generalizing r with
  | leaf h =>
    rw [decodeFrom_node h, Trie.decode?, readAs, Nat.sub_self]
    rfl
  | @node n m k zero one h _ _ ihzero ihone =>
    rw [decodeFrom_node h, BitReader.next_eq]
    cases hrest : r.rest with
    | nil => rfl
    | cons bit bits =>
      have hbits : (r.advance 1).rest = bits := by
        rw [BitReader.rest_advance, hrest, List.drop_one, List.tail_cons]
      cases bit with
      | false =>
        rw [Trie.decode?, ← readAs_advance hrest zero, ← hbits]
        exact ihzero (r.advance 1)
      | true =>
        rw [Trie.decode?, ← readAs_advance hrest one, ← hbits]
        exact ihone (r.advance 1)

end LinkedTrie

end EntitlementAuthority
