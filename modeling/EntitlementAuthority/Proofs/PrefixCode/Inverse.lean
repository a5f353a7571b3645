import EntitlementAuthority.Proofs.PrefixCode.Kraft
import EntitlementAuthority.Proofs.PrefixCode.Worklist

/-!
# Codes and symbols

The codes of a linked trie are those of the trie that it stands for: what is known of the latter
holds of what is collected, written bit by bit and read bit by bit.

* `LinkedTrie.Built` — a linked trie for weighted symbols and the table of its codes.
* `LinkedTrie.exists_built` — there is one for all symbols that differ and weights of which the sum
  is a machine word.
* `BitWriter.write_eq` — every code is found, and the codes are written one after the other.
* `LinkedTrie.decodeMany_of_represents` — symbols are read from their codes.
* `LinkedTrie.codes_inverse` — both ways together.
-/

namespace EntitlementAuthority

namespace LinkedTrie

variable {leaves : List (Nat × UInt64)} {t : LinkedTrie} {table : Table Nat (List Bool)} {u : Trie}

/-- The linked trie of weighted symbols with the table of its codes, and the trie that it stands
for. -/
structure Built (leaves : List (Nat × UInt64)) (t : LinkedTrie) (table : Table Nat (List Bool))
    (u : Trie) : Prop where
  build : LinkedTrie.build leaves = .ok t
  codes : t.codes = .ok table
  trie : Trie.ofLeaves? (leafWeights leaves) = some u
  represents : Represents t.nodes t.root u
  entries : table.entries = u.codes.reverse

theorem map_fst_leafWeights (leaves : List (Nat × UInt64)) :
    (leafWeights leaves).map Prod.fst = leaves.map Prod.fst := by
  rw [leafWeights, List.map_map]
  rfl

/-- **The trie is built, and codes are collected from it.** -/
theorem exists_built (hne : leaves ≠ []) (hdistinct : (leaves.map Prod.fst).Nodup)
    (hsum : (leaves.map fun leaf => leaf.2.toNat).sum < 2 ^ 64) :
    ∃ t table u, Built leaves t table u := by
  obtain ⟨t, u, hbuild, htrie, hrepresents⟩ := build_result hne hsum
  have hperm := Trie.symbols_ofLeaves?_perm htrie
  rw [map_fst_leafWeights] at hperm
  obtain ⟨table, hcodes, hentries⟩ := codes_of_represents hrepresents (hperm.nodup_iff.2 hdistinct)
  exact ⟨t, table, u, hbuild, hcodes, htrie, hrepresents, hentries⟩

namespace Built

theorem symbols_perm (h : Built leaves t table u) : u.symbols.Perm (leaves.map Prod.fst) :=
  map_fst_leafWeights leaves ▸ Trie.symbols_ofLeaves?_perm h.trie

/-- The table has the codes of the given symbols, and no others. -/
theorem get?_eq (h : Built leaves t table u) (symbol : Nat) : table.get? symbol =
    if symbol ∈ leaves.map Prod.fst then some (u.code symbol) else none := by
  split
  · rename_i hsymbol
    rw [Table.get?_eq_some_iff, h.entries, List.mem_reverse]
    exact (Trie.lookup_codes (h.symbols_perm.mem_iff.2 hsymbol)).2
  · rename_i hsymbol
    refine Option.eq_none_iff_forall_ne_some.2 fun code hcode => hsymbol ?_
    rw [Table.get?_eq_some_iff, h.entries, List.mem_reverse] at hcode
    rw [← h.symbols_perm.mem_iff, ← Trie.map_fst_codes]
    exact List.mem_map_of_mem hcode

theorem prefixFree (h : Built leaves t table u) : PrefixFree (leaves.map Prod.fst) u.code :=
  fun s hs t ht => u.prefixFree_code s (h.symbols_perm.mem_iff.2 hs) t (h.symbols_perm.mem_iff.2 ht)

theorem kraftSum_eq_one (h : Built leaves t table u) :
    kraftSum (table.values.map List.length) = 1 := by
  have hlengths : table.values.map List.length = u.lengths.reverse := by
    rw [Table.values, h.entries, List.map_map, Trie.lengths, List.map_reverse]
    rfl
  rw [hlengths, kraftSum_perm u.lengths.reverse_perm, Trie.kraftSum_lengths]

end Built

end LinkedTrie

/-! ### Writing and reading symbols -/

/-- Symbols with codes are written as the bits of their codes. -/
theorem BitWriter.write_eq {table : Table Nat (List Bool)} {code : Nat → List Bool}
    {symbols : List Nat} (h : ∀ s ∈ symbols, table.get? s = some (code s)) (w : BitWriter) :
    w.write table symbols = .ok (w.extend (symbols.flatMap code)) := by
  induction symbols generalizing w with
  | nil => rfl
  | cons s symbols ih =>
    rw [write, LinkedTrie.codeOf, h s List.mem_cons_self]
    show (w.extend (code s)).write table symbols = _
    rw [ih (fun s' hs' => h s' (List.mem_cons_of_mem s hs')), List.flatMap_cons, extend, extend,
      extend, List.foldl_append]

/-- **Symbols are read from their codes**, each with as many bits as its code has. -/
theorem LinkedTrie.decodeMany_of_represents {t : LinkedTrie} {u : Trie}
    (h : Represents t.nodes t.root u) {symbols : List Nat} (hsymbols : ∀ s ∈ symbols, s ∈ u.symbols)
    {r : BitReader} {rest : List Bool} (hrest : r.rest = symbols.flatMap u.code ++ rest) :
    t.decodeMany symbols.length r = .ok (symbols.map fun s => (s, (u.code s).length)) := by
  induction symbols generalizing r with
  | nil => rfl
  | cons s symbols ih =>
    rw [List.flatMap_cons, List.append_assoc] at hrest
    have hnext : (r.advance (u.code s).length).rest = symbols.flatMap u.code ++ rest := by
      rw [BitReader.rest_advance, hrest, List.drop_left]
    have hfirst : t.decode r = .ok (s, r.advance (u.code s).length) := by
      rw [decode, decodeFrom_of_represents h, hrest,
        Trie.decode?_code (hsymbols s List.mem_cons_self), readAs, hrest, List.length_append,
        Nat.add_sub_cancel]
    rw [List.length_cons, decodeMany, hfirst]
    show (t.decodeMany symbols.length (r.advance (u.code s).length)).bind _ = _
    rw [ih (fun s' hs' => hsymbols s' (List.mem_cons_of_mem s hs')) hnext]
    show Except.ok ((s, r.position + (u.code s).length - r.position) :: _) = _
    rw [Nat.add_sub_cancel_left, List.map_cons]

/-- Bytes that are written hold the bits, whatever stands behind them. -/
theorem BitReader.rest_finish (bits rest : List Bool) (more : Bytes) :
    ∃ behind, (⟨((BitWriter.empty.extend bits).extend rest).finish ++ more, 0⟩ : BitReader).rest =
      bits ++ behind := by
  have hfinish :
      ((BitWriter.empty.extend bits).extend rest).finish = Bits.toBytes (bits ++ rest) := by
    have h := BitWriter.finish_extend BitWriter.pending_empty (bits ++ rest)
    rwa [BitWriter.extend, List.foldl_append] at h
  obtain ⟨count, hbits⟩ := Bits.ofBytes_toBytes (bits ++ rest)
  rw [hfinish, BitReader.rest, List.drop_zero, Bits.ofBytes, List.flatMap_append]
  show ∃ behind, Bits.ofBytes (Bits.toBytes (bits ++ rest)) ++ _ = _
  rw [hbits, List.append_assoc, List.append_assoc]
  exact ⟨_, rfl⟩

/-- **Codes and decoder are inverse.** For symbols that differ and weights of which the sum is a
machine word, the trie is built and its codes are collected: those that joining in order of weight
gives, a prefix code that leaves nothing unused. Symbols that are written with them, with any bits
and bytes behind, are read back, each from the bits of its code. -/
theorem LinkedTrie.codes_inverse {leaves : List (Nat × UInt64)} (hne : leaves ≠ [])
    (hdistinct : (leaves.map Prod.fst).Nodup)
    (hsum : (leaves.map fun leaf => leaf.2.toNat).sum < 2 ^ 64) :
    ∃ t table u, LinkedTrie.build leaves = .ok t ∧ t.codes = .ok table ∧
      Trie.ofLeaves? (leafWeights leaves) = some u ∧
      (∀ symbol, table.get? symbol =
        if symbol ∈ leaves.map Prod.fst then some (u.code symbol) else none) ∧
      PrefixFree (leaves.map Prod.fst) u.code ∧
      kraftSum (table.values.map List.length) = 1 ∧
      ∀ symbols ⊆ leaves.map Prod.fst, ∃ w, BitWriter.empty.write table symbols = .ok w ∧
        ∀ (rest : List Bool) (more : Bytes),
          t.decodeMany symbols.length ⟨(w.extend rest).finish ++ more, 0⟩ =
            .ok (symbols.map fun s => (s, (u.code s).length)) := by
  obtain ⟨t, table, u, h⟩ := exists_built hne hdistinct hsum
  refine ⟨t, table, u, h.build, h.codes, h.trie, h.get?_eq, h.prefixFree, h.kraftSum_eq_one, ?_⟩
  intro symbols hsymbols
  have hget : ∀ s ∈ symbols, table.get? s = some (u.code s) :=
    fun s hs => (h.get?_eq s).trans (if_pos (hsymbols hs))
  refine ⟨_, BitWriter.write_eq hget _, fun rest more => ?_⟩
  obtain ⟨behind, hbehind⟩ := BitReader.rest_finish (symbols.flatMap u.code) rest more
  exact decodeMany_of_represents h.represents
    (fun s hs => h.symbols_perm.mem_iff.2 (hsymbols hs)) hbehind

/-- Four symbols, three of them of equal weight. -/
theorem LinkedTrie.codes_inverse_four :
    let leaves : List (Nat × UInt64) := [(7, 1), (3, 1), (5, 2), (0, 1)]
    leaves ≠ [] ∧ (leaves.map Prod.fst).Nodup ∧
      (leaves.map fun leaf => leaf.2.toNat).sum < 2 ^ 64 ∧
      ∃ (t : LinkedTrie) (table : Table Nat (List Bool)) (u : Trie) (w : BitWriter),
        LinkedTrie.build leaves = .ok t ∧ t.codes = .ok table ∧
        table.get? 5 = some (u.code 5) ∧ table.get? 6 = none ∧
        kraftSum (table.values.map List.length) = 1 ∧
        BitWriter.empty.write table [5, 0, 5] = .ok w ∧
        t.decodeMany 3 ⟨(w.extend [true]).finish ++ [255], 0⟩ =
          .ok [(5, (u.code 5).length), (0, (u.code 0).length), (5, (u.code 5).length)] := by
  obtain ⟨t, table, u, hbuild, hcodes, -, hget, -, hkraft, hread⟩ :=
    @codes_inverse [(7, 1), (3, 1), (5, 2), (0, 1)] (by decide) (by decide) (by decide)
  obtain ⟨w, hwrite, hdecode⟩ := hread [5, 0, 5] (by decide)
  exact ⟨by decide, by decide, by decide, t, table, u, w, hbuild, hcodes, hget 5, hget 6, hkraft,
    hwrite, hdecode [true] [255]⟩

end EntitlementAuthority
