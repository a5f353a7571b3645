import EntitlementAuthority.PathTree.LookUp
import EntitlementAuthority.Proofs.Bytes.Text
import EntitlementAuthority.Proofs.PathTree.Tables
import EntitlementAuthority.Proofs.Text.Sorted
import EntitlementAuthority.Proofs.Zlib.Stored

/-!
# Content paths, written and read back

* `PathTree.normalPaths` — paths in normal form: a slash in front of each segment, and paths without
  segments left out.
* `PathTree.encodeWith_eq` — no code is missing where the bytes of a list of paths are written.
* `PathTree.decode_encodeWith` — what is read back are the paths in normal form, sorted and each
  once.
-/

namespace EntitlementAuthority

/-! ### The number of nodes and the dictionary -/

namespace NodeTable

/-- The number of nodes is read back if it is a machine word. -/
theorem readNodeCount_nodeCountBytes {count : Nat} (h : count < 2 ^ 64) (rest : Bytes) :
    readNodeCount (nodeCountBytes count ++ rest) = .ok (count, rest) := by
  unfold nodeCountBytes
  split
  · rename_i hsmall
    have htoNat : (UInt8.ofNat count).toNat = count := by
      rw [UInt8.toNat_ofNat']
      omega
    rw [List.singleton_append, readNodeCount, htoNat, if_pos hsmall]
  · -- a greater count is written without leading zeros, behind the number of its bytes
    have hlength : ((Bytes.bigEndian 8 count).dropWhile (· == 0)).length ≤ 8 :=
      Nat.le_trans (List.dropWhile_sublist _).length_le
        (Nat.le_of_eq (Bytes.length_bigEndian 8 count))
    have hnumber : Bytes.ofBigEndian ((Bytes.bigEndian 8 count).dropWhile (· == 0)) = count := by
      rw [Bytes.ofBigEndian_dropWhile, Bytes.ofBigEndian_bigEndian (by omega)]
    generalize (Bytes.bigEndian 8 count).dropWhile (· == 0) = significant at hlength hnumber
    have htoNat : (UInt8.ofNat (128 + significant.length)).toNat = 128 + significant.length := by
      rw [UInt8.toNat_ofNat']
      omega
    dsimp only
    rw [List.cons_append, readNodeCount, htoNat, if_neg (by omega)]
    dsimp only
    rw [Nat.add_sub_cancel_left, if_neg, List.take_left, List.drop_left, hnumber]
    rw [List.length_append]
    omega

theorem nodeCountBytes_ne_nil (count : Nat) : nodeCountBytes count ≠ [] := by
  unfold nodeCountBytes
  split <;> exact List.cons_ne_nil _ _

/-- A run without zero bytes is split off. -/
theorem splitZeros_append {part : Bytes} (h : 0 ∉ part) (rest : Bytes) :
    splitZeros (part ++ 0 :: rest) = (part :: (splitZeros rest).1, (splitZeros rest).2) := by
  induction part with
  | nil => simp only [List.nil_append, splitZeros, if_true]
  | cons b part ih =>
    have hb : b ≠ 0 := fun hb => h (hb ▸ List.mem_cons_self)
    rw [List.cons_append, splitZeros, ih fun hmem => h (List.mem_cons_of_mem b hmem)]
    dsimp only
    rw [if_neg hb]

theorem splitZeros_dictionaryBytes {segments : List String}
    (h : ∀ s ∈ segments, '\u0000' ∉ s.toList) :
    splitZeros (dictionaryBytes segments) = (segments.map Bytes.ofText, []) := by
  induction segments with
  | nil => rfl
  | cons s segments ih =>
    have hs : 0 ∉ Bytes.ofText s := Bytes.zero_notMem_ofText (h s List.mem_cons_self)
    have hrest := ih fun s' hs' => h s' (List.mem_cons_of_mem s hs')
    rw [dictionaryBytes, List.flatMap_cons, List.append_assoc, List.singleton_append,
      splitZeros_append hs]
    show (_ :: (splitZeros (dictionaryBytes segments)).1,
      (splitZeros (dictionaryBytes segments)).2) = _
    rw [hrest]
    rfl

/-- The segments are read back if none has a zero character. -/
theorem readDictionary_dictionaryBytes {segments : List String}
    (h : ∀ s ∈ segments, '\u0000' ∉ s.toList) :
    readDictionary (dictionaryBytes segments) = .ok segments := by
  have hparts : (segments.map Bytes.ofText).mapM Bytes.toText? = some segments := by
    clear h
    induction segments with
    | nil => rfl
    | cons s segments ih =>
      rw [List.map_cons, List.mapM_cons, Bytes.toText?_ofText, ih]
      rfl
  rw [readDictionary, splitZeros_dictionaryBytes h]
  dsimp only
  rw [hparts]

end NodeTable

/-! ### The symbols of the codes -/

theorem length_segmentLeaves (count : Nat) : (segmentLeaves count).length = count + 1 := by
  rw [segmentLeaves, List.length_map, List.length_range]

theorem segmentLeaves_ne_nil (count : Nat) : segmentLeaves count ≠ [] := by
  rw [← List.length_pos_iff, length_segmentLeaves]
  exact Nat.succ_pos count

theorem nodeLeaves_ne_nil {count : Nat} (h : 2 ≤ count) : nodeLeaves count ≠ [] := by
  rw [← List.length_pos_iff, nodeLeaves, List.length_map, List.length_range']
  omega

/-- There is a code for each segment and for the end of a node. -/
theorem Trie.mem_symbols_segmentLeaves {count : Nat} {t : Trie}
    (h : ofLeaves? (segmentLeaves count) = some t) (symbol : Nat) :
    symbol ∈ t.symbols ↔ symbol ≤ count := by
  rw [mem_symbols_ofLeaves? h, segmentLeaves, List.map_map]
  simp only [List.mem_map, List.mem_range, Function.comp_apply, exists_eq_right, Nat.lt_succ_iff]

/-- There is a code for each node but the root. -/
theorem Trie.mem_symbols_nodeLeaves {count : Nat} {t : Trie}
    (h : ofLeaves? (nodeLeaves count) = some t) (symbol : Nat) :
    symbol ∈ t.symbols ↔ 0 < symbol ∧ symbol < count := by
  rw [mem_symbols_ofLeaves? h, nodeLeaves, List.map_map]
  simp only [List.mem_map, List.mem_range'_1, Function.comp_apply, exists_eq_right]
  omega

/-! ### Looking codes up -/

theorem mapM_ok {α β : Type} {f : α → Outcome β} {g : α → β} {l : List α}
    (h : ∀ x ∈ l, f x = .ok (g x)) : l.mapM f = .ok (l.map g) := by
  induction l with
  | nil => rfl
  | cons x l ih =>
    rw [List.mapM_cons, h x List.mem_cons_self, ih fun y hy => h y (List.mem_cons_of_mem x hy)]
    rfl

theorem idxOf?_of_mem {α : Type} [BEq α] [LawfulBEq α] {x : α} {l : List α} (h : x ∈ l) :
    l.idxOf? x = some (l.idxOf x) := by
  have hlt := List.idxOf_lt_length_of_mem h
  rw [List.idxOf_eq_getD_idxOf?] at hlt ⊢
  cases hfound : l.idxOf? x with
  | none =>
    rw [hfound] at hlt
    exact absurd hlt (Nat.lt_irrefl _)
  | some n => rfl

theorem Trie.lookUp_eq {t : Trie} {symbol : Nat} (h : symbol ∈ t.symbols) :
    t.lookUp (some symbol) = .ok (t.code symbol) := by
  rw [lookUp, Option.bind_some, (lookup_codes h).1]

namespace SharedTree

/-- The tries of the codes for the segments and for the nodes of a shared tree. -/
structure Tries (t : SharedTree) (zero one nodeTrie : Trie) : Prop where
  segment : Trie.ofLeaves? (segmentLeaves t.segmentOrder.length) = some (.node zero one)
  node : Trie.ofLeaves? (nodeLeaves t.nodeOrder.length) = some nodeTrie

variable {t : SharedTree} {zero one nodeTrie : Trie} {n : Nat} {e : String × Nat}

theorem idxOf_target (ht : Rooted t) (he : e ∈ t.children n) :
    0 < t.nodeOrder.idxOf e.2 ∧ t.nodeOrder.idxOf e.2 < t.nodeOrder.length := by
  obtain ⟨hlt, hne⟩ := ht.target he
  exact ⟨idxOf_pos hne, List.idxOf_lt_length_of_mem (mem_nodeOrder hlt)⟩

/-- With one edge there are two symbols in each trie, except that nothing leads to the root. -/
theorem exists_tries (ht : Rooted t) (he : e ∈ t.children n) :
    ∃ zero one nodeTrie, Tries t zero one nodeTrie := by
  have hsegments := List.length_pos_of_mem (segment_mem_segmentOrder he)
  obtain ⟨hpos, hlt⟩ := idxOf_target ht he
  have hsegmentLeaves : 2 ≤ (segmentLeaves t.segmentOrder.length).length := by
    rw [length_segmentLeaves]
    omega
  have hnodeLeaves : nodeLeaves t.nodeOrder.length ≠ [] := nodeLeaves_ne_nil (by omega)
  obtain ⟨segmentTrie, hsegment⟩ := Option.isSome_iff_exists.1
    (Trie.isSome_ofLeaves? (segmentLeaves_ne_nil t.segmentOrder.length))
  obtain ⟨zero, one, rfl⟩ := Trie.isNode_of_ofLeaves? hsegment hsegmentLeaves
  obtain ⟨nodeTrie, hnode⟩ := Option.isSome_iff_exists.1 (Trie.isSome_ofLeaves? hnodeLeaves)
  exact ⟨zero, one, nodeTrie, hsegment, hnode⟩

section Tries

variable (h : Tries t zero one nodeTrie)
include h

theorem Tries.mem_segments (symbol : Nat) :
    symbol ∈ (Trie.node zero one).symbols ↔ symbol ≤ t.segmentOrder.length :=
  Trie.mem_symbols_segmentLeaves h.segment symbol

theorem Tries.mem_nodes (symbol : Nat) :
    symbol ∈ nodeTrie.symbols ↔ 0 < symbol ∧ symbol < t.nodeOrder.length :=
  Trie.mem_symbols_nodeLeaves h.node symbol

/-- Every edge has codes. -/
theorem Tries.edge (ht : Rooted t) (he : e ∈ t.children n) :
    (t.place e).1 ∈ (Trie.node zero one).symbols ∧ (t.place e).1 ≠ t.segmentOrder.length ∧
      (t.place e).2 ∈ nodeTrie.symbols := by
  have hlt := List.idxOf_lt_length_of_mem (segment_mem_segmentOrder he)
  exact ⟨(h.mem_segments _).2 (Nat.le_of_lt hlt), Nat.ne_of_lt hlt,
    (h.mem_nodes _).2 (idxOf_target ht he)⟩

theorem Tries.codable (ht : Rooted t) :
    ∀ edges ∈ t.table, NodeTable.Codable (.node zero one) nodeTrie t.segmentOrder.length edges := by
  intro edges hedges
  obtain ⟨n, -, rfl⟩ := List.mem_map.1 hedges
  refine ⟨?_, ?_⟩
  · intro _ hplace
    obtain ⟨e, he, rfl⟩ := List.mem_map.1 hplace
    obtain ⟨hsegment, hne, -⟩ := h.edge ht he
    exact ⟨hsegment, hne⟩
  · intro _ hplace
    obtain ⟨e, he, rfl⟩ := List.mem_map.1 hplace
    exact (h.edge ht he).2.2

/-- The bits of the nodes are those of the table. -/
theorem Tries.bits_eq : t.bits =
    t.table.flatMap (NodeTable.nodeBits (.node zero one) nodeTrie t.segmentOrder.length) := by
  rw [bits, h.segment, h.node, table, List.flatMap_map]
  refine List.flatMap_congr ?_
  intro n _
  rw [NodeTable.nodeBits, List.flatMap_map]
  rfl

theorem Tries.lookUpEdge_eq (ht : Rooted t) (he : e ∈ t.children n) :
    t.lookUpEdge (.node zero one) nodeTrie e =
      .ok (NodeTable.edgeBits (.node zero one) nodeTrie (t.place e)) := by
  obtain ⟨hsegment, -, hnode⟩ := h.edge ht he
  unfold lookUpEdge
  rw [idxOf?_of_mem (segment_mem_segmentOrder he), idxOf?_of_mem (mem_nodeOrder (ht.target he).1),
    show List.idxOf e.1 t.segmentOrder = (t.place e).1 from rfl, Trie.lookUp_eq hsegment,
    show List.idxOf e.2 t.nodeOrder = (t.place e).2 from rfl, Trie.lookUp_eq hnode]
  rfl

theorem Tries.lookUpNode_eq (ht : Rooted t) (n : Nat) :
    t.lookUpNode (.node zero one) nodeTrie n =
      .ok (NodeTable.nodeBits (.node zero one) nodeTrie t.segmentOrder.length
        ((t.children n).map t.place)) := by
  unfold lookUpNode
  rw [mapM_ok fun e he => h.lookUpEdge_eq ht he,
    Trie.lookUp_eq ((h.mem_segments t.segmentOrder.length).2 (Nat.le_refl _)), NodeTable.nodeBits,
    List.flatMap_map]
  rfl

/-- Every code is found. -/
theorem Tries.lookUpBits_eq (ht : Rooted t) : t.lookUpBits = .ok t.bits := by
  have hsegment : Trie.build (segmentLeaves t.segmentOrder.length) = .ok (.node zero one) := by
    rw [Trie.build, h.segment]
  have hnode : Trie.build (nodeLeaves t.nodeOrder.length) = .ok nodeTrie := by
    rw [Trie.build, h.node]
  have hnodes := mapM_ok fun n (_ : n ∈ t.nodeOrder) => h.lookUpNode_eq ht n
  unfold lookUpBits
  rw [hsegment, Outcome.ok_bind, hnode, Outcome.ok_bind, hnodes, h.bits_eq, table, List.flatMap_map]
  rfl

/-- The table is read back from the number of its nodes and their bits. -/
theorem Tries.readBody_eq (ht : Rooted t) (he : e ∈ t.children n)
    (hcount : t.nodeOrder.length < 2 ^ 64) :
    NodeTable.readBody t.segmentOrder (nodeCountBytes t.nodeOrder.length ++ Bits.toBytes t.bits) =
      .ok t.nodeTable := by
  obtain ⟨padding, hpadding⟩ := Bits.ofBytes_toBytes t.bits
  have hstop := (h.mem_segments t.segmentOrder.length).2 (Nat.le_refl _)
  have hlength : t.table.length = t.nodeOrder.length := List.length_map _
  have hnodes := NodeTable.readNodes_bits hstop (h.codable ht) (List.replicate padding false)
  rw [NodeTable.readBody, NodeTable.readNodeCount_nodeCountBytes hcount]
  dsimp only
  rw [if_neg, h.segment, h.node, hpadding, h.bits_eq, ← hlength]
  · dsimp only
    rw [hnodes]
    rfl
  · have hplace := idxOf_target ht he
    omega

end Tries

/-- **The paths of a shared tree are read back** from its bytes. -/
theorem decode_bytes {deflate : Bytes → Bytes} (hdeflate : Zlib.IsCompressor deflate)
    (ht : Rooted t) (he : e ∈ t.children n) (hcount : t.nodeOrder.length < 2 ^ 64)
    (hzero : ∀ s ∈ t.segmentOrder, '\u0000' ∉ s.toList) :
    ∃ found, PathTree.decode (deflate (dictionaryBytes t.segmentOrder)
        ++ nodeCountBytes t.nodeOrder.length ++ Bits.toBytes t.bits) = .ok (Text.sortedSet found) ∧
      ∀ q, q ∈ found ↔ q ≠ "" ∧ ∃ segments, Reads t.nodes t.root segments ∧
        q = joinSegments segments := by
  obtain ⟨zero, one, nodeTrie, h⟩ := exists_tries ht he
  have hread : NodeTable.read (deflate (dictionaryBytes t.segmentOrder)
      ++ nodeCountBytes t.nodeOrder.length ++ Bits.toBytes t.bits) = .ok t.nodeTable := by
    rw [NodeTable.read, List.append_assoc, hdeflate]
    dsimp only
    rw [NodeTable.readDictionary_dictionaryBytes hzero]
    exact h.readBody_eq ht he hcount
  have hroot : t.root < t.nodes.length := Nat.lt_of_lt_of_eq (Nat.lt_succ_self _) ht.root
  have hbudget : t.root < t.nodeTable.nodes.length + 1 := by
    have hle : t.nodes.length ≤ t.table.length := by
      rw [table, List.length_map]
      exact length_nodes_le t
    exact Nat.lt_of_lt_of_le hroot (Nat.le_succ_of_le hle)
  obtain ⟨found, hfound, hmem⟩ := walks_nodeTable ht hroot hbudget ""
  rw [idxOf_root] at hfound
  refine ⟨found, ?_, ?_⟩
  · have hne : (deflate (dictionaryBytes t.segmentOrder) ++ nodeCountBytes t.nodeOrder.length
        ++ Bits.toBytes t.bits).isEmpty = false := by
      have hcountBytes := NodeTable.nodeCountBytes_ne_nil t.nodeOrder.length
      simp [hcountBytes]
    rw [PathTree.decode, hne, if_neg Bool.false_ne_true, hread]
    have hpaths : (Except.ok t.nodeTable).bind NodeTable.paths = .ok found := hfound
    rw [hpaths]
  · simpa only [String.empty_append] using hmem

end SharedTree

/-! ### Lists of paths -/

namespace PathTree

/-- Paths in normal form: a slash in front of each segment. Paths without segments are left out. -/
def normalPaths (paths : List String) : List String :=
  ((paths.map Text.pathSegments).filter (· ≠ [])).map joinSegments

/-- How many nodes the tree of a list of paths has once equal ones are shared. -/
def nodeCount (paths : List String) : Nat :=
  (SharedTree.ofTree (ofPaths paths)).nodeOrder.length

variable {paths : List String} {deflate : Bytes → Bytes} {bytes : Bytes}

/-- The shared form of a tree with an edge has an edge. -/
theorem exists_edge_ofTree {t : PathTree} (ht : t.isStop = false) :
    ∃ n e, e ∈ (SharedTree.ofTree t).children n := by
  obtain ⟨q, hends⟩ := exists_endsBelow t
  have hq : q ≠ [] := ne_nil_of_mem_sequences ((endsBelow_of_isStop_eq_false ht).1 hends)
  have hreads := ((SharedTree.sharedNode_ofTree t).reads q).2 hends
  cases hreads with
  | stop h => exact absurd rfl hq
  | edge h hmem _ =>
    rw [← SharedTree.children_eq h] at hmem
    exact ⟨_, _, hmem⟩

/-- **No code is missing**, whatever the paths are. -/
theorem encodeWith_eq (ht : (ofPaths paths).isStop = false) :
    encodeWith deflate paths =
      .ok (deflate (dictionaryBytes (SharedTree.ofTree (ofPaths paths)).segmentOrder)
        ++ nodeCountBytes (nodeCount paths)
        ++ Bits.toBytes (SharedTree.ofTree (ofPaths paths)).bits) := by
  obtain ⟨n, e, he⟩ := exists_edge_ofTree ht
  have hrooted := SharedTree.rooted_ofTree (ofPaths paths)
  obtain ⟨zero, one, nodeTrie, htries⟩ := SharedTree.exists_tries hrooted he
  have hbits := htries.lookUpBits_eq hrooted
  unfold encodeWith nodeCount
  cases hpaths : ofPaths paths with
  | stop =>
    rw [hpaths] at ht
    cases ht
  | edge s below next =>
    rw [hpaths] at hbits
    dsimp only
    rw [hbits]
    rfl

/-- With stored blocks, the bytes are those of `PathTree.encode`. -/
theorem encodeWith_deflate (paths : List String) :
    encodeWith Zlib.deflate paths = .ok (encode paths) := by
  cases hstop : (ofPaths paths).isStop with
  | true =>
    unfold encodeWith encode
    rw [eq_stop_of_isStop hstop]
  | false =>
    rw [encodeWith_eq hstop]
    unfold encode nodeCount
    generalize ofPaths paths = t at hstop
    cases t with
    | stop => cases hstop
    | edge s below next => rfl

theorem mem_of_mem_splitOnChar {sep c : Char} {cs field : List Char}
    (h : field ∈ Text.splitOnChar sep cs) (hc : c ∈ field) : c ∈ cs := by
  induction cs generalizing field with
  | nil =>
    rw [List.mem_singleton.1 h] at hc
    exact hc
  | cons d cs ih =>
    unfold Text.splitOnChar at h
    split at h
    · rcases List.mem_cons.1 h with rfl | h
      · cases hc
      · exact List.mem_cons_of_mem d (ih h hc)
    · cases hs : Text.splitOnChar sep cs with
      | nil => exact absurd hs (Text.splitOnChar_ne_nil sep cs)
      | cons first fields =>
        rw [hs] at h ih
        rcases List.mem_cons.1 h with rfl | h
        · rcases List.mem_cons.1 hc with rfl | hc
          · exact List.mem_cons_self
          · exact List.mem_cons_of_mem d (ih List.mem_cons_self hc)
        · exact List.mem_cons_of_mem d (ih (List.mem_cons_of_mem first h) hc)

/-- A segment has no character that its path does not have. -/
theorem mem_of_mem_pathSegments {path segment : String} {c : Char}
    (h : segment ∈ Text.pathSegments path) (hc : c ∈ segment.toList) : c ∈ path.toList := by
  obtain ⟨hmem, -⟩ := List.mem_filter.1 h
  obtain ⟨field, hfield, rfl⟩ := List.mem_map.1 hmem
  rw [String.toList_ofList] at hc
  exact mem_of_mem_splitOnChar hfield hc

/-- The dictionary has no character that no path has. -/
theorem zero_notMem_segmentOrder (hzero : ∀ path ∈ paths, '\u0000' ∉ path.toList) :
    ∀ s ∈ (SharedTree.ofTree (ofPaths paths)).segmentOrder, '\u0000' ∉ s.toList := by
  intro s hs hmem
  obtain ⟨edges, hedges, n, he⟩ := SharedTree.mem_segmentOrder.1 hs
  obtain ⟨m, hm⟩ := List.mem_iff_getElem?.1 hedges
  have hlabel := (SharedTree.sharedNode_ofTree (ofPaths paths)).newLabels m edges (Nat.zero_le m) hm
    (s, n) he
  obtain ⟨q, hq, hsegment⟩ := exists_sequence_of_mem_labels hlabel
  obtain ⟨path, hpath, rfl⟩ := List.mem_map.1 (mem_sequences_ofPaths.1 hq).2
  exact hzero path hpath (mem_of_mem_pathSegments hsegment hmem)

theorem mem_normalPaths {q : String} : q ∈ normalPaths paths ↔
    ∃ segments, segments ∈ (ofPaths paths).sequences ∧ q = joinSegments segments := by
  simp only [normalPaths, List.mem_map (f := joinSegments), List.mem_filter, decide_eq_true_eq,
    mem_sequences_ofPaths]
  exact exists_congr fun segments => and_congr and_comm eq_comm

theorem joinSegments_ne_empty {segments : List String} (h : segments ≠ []) :
    joinSegments segments ≠ "" := by
  obtain ⟨s, rest, rfl⟩ := List.exists_cons_of_ne_nil h
  rw [← String.empty_append (s := joinSegments (s :: rest)), NodeTable.append_joinSegments_cons]
  exact SharedTree.append_slash_ne_empty _ _ _

/-- Whatever the paths are, some bytes are written. -/
theorem exists_encodeWith (deflate : Bytes → Bytes) (paths : List String) :
    ∃ bytes, encodeWith deflate paths = .ok bytes := by
  cases hstop : (ofPaths paths).isStop with
  | true =>
    rw [encodeWith, eq_stop_of_isStop hstop]
    exact ⟨[], rfl⟩
  | false => exact ⟨_, encodeWith_eq hstop⟩

/-- What was written is read back in normal form, if it holds no zero character. -/
theorem decode_of_encodeWith (hdeflate : Zlib.IsCompressor deflate)
    (hzero : ∀ path ∈ paths, '\u0000' ∉ path.toList) (hcount : nodeCount paths < 2 ^ 64)
    (h : encodeWith deflate paths = .ok bytes) :
    decode bytes = .ok (Text.sortedSet (normalPaths paths)) := by
  cases hstop : (ofPaths paths).isStop with
  | true =>
    rw [encodeWith, eq_stop_of_isStop hstop] at h
    cases h
    have hnone : Text.sortedSet (normalPaths paths) = Text.sortedSet [] := by
      refine Text.sortedSet_congr fun q => ?_
      rw [mem_normalPaths, eq_stop_of_isStop hstop]
      simp [sequences]
    rw [hnone]
    rfl
  | false =>
    rw [encodeWith_eq hstop] at h
    cases h
    obtain ⟨n, e, he⟩ := exists_edge_ofTree hstop
    obtain ⟨found, hdecode, hmem⟩ := SharedTree.decode_bytes hdeflate
      (SharedTree.rooted_ofTree (ofPaths paths)) he hcount (zero_notMem_segmentOrder hzero)
    refine hdecode.trans (congrArg Except.ok (Text.sortedSet_congr fun q => ?_))
    rw [hmem, mem_normalPaths]
    constructor
    · rintro ⟨-, segments, hreads, rfl⟩
      have hends := ((SharedTree.sharedNode_ofTree (ofPaths paths)).reads segments).1 hreads
      exact ⟨segments, (endsBelow_of_isStop_eq_false hstop).1 hends, rfl⟩
    · rintro ⟨segments, hsegments, rfl⟩
      refine ⟨joinSegments_ne_empty (ne_nil_of_mem_sequences hsegments), segments, ?_, rfl⟩
      exact ((SharedTree.sharedNode_ofTree (ofPaths paths)).reads segments).2
        ((endsBelow_of_isStop_eq_false hstop).2 hsegments)

/-- **Content paths are read back** in normal form, sorted and each once, if the number of nodes is
a machine word. -/
theorem decode_encodeWith (hdeflate : Zlib.IsCompressor deflate)
    (hzero : ∀ path ∈ paths, '\u0000' ∉ path.toList) (hcount : nodeCount paths < 2 ^ 64) :
    ∃ bytes, encodeWith deflate paths = .ok bytes ∧
      decode bytes = .ok (Text.sortedSet (normalPaths paths)) := by
  obtain ⟨bytes, hbytes⟩ := exists_encodeWith deflate paths
  exact ⟨bytes, hbytes, decode_of_encodeWith hdeflate hzero hcount hbytes⟩

/-- There are hardly more nodes than there are segments in the paths. -/
theorem nodeCount_le (paths : List String) :
    nodeCount paths ≤ (paths.map fun path => (Text.pathSegments path).length).sum + 3 := by
  have horder := SharedTree.length_nodeOrder_le (SharedTree.ofTree (ofPaths paths))
  have hnodes := (SharedTree.sharedNode_ofTree (ofPaths paths)).length_le
  have hsize := size_ofPaths_le paths
  rw [List.length_nil, Nat.zero_add] at hnodes
  unfold nodeCount
  omega

/-- One path is a part of another one, two end alike, one is given twice and one has no segments. -/
def samplePaths : List String :=
  ["/content/os", "content//os/x86_64", "//", "/content/os", "/beta/os/x86_64/"]

theorem decode_encodeWith_samplePaths : ∃ bytes, encodeWith Zlib.deflate samplePaths = .ok bytes ∧
    decode bytes = .ok ["/beta/os/x86_64", "/content/os", "/content/os/x86_64"] := by
  have hzero : ∀ path ∈ samplePaths, '\u0000' ∉ path.toList := by decide
  have hcount : nodeCount samplePaths < 2 ^ 64 :=
    Nat.lt_of_le_of_lt (nodeCount_le samplePaths) (by decide)
  have hnormal : Text.sortedSet (normalPaths samplePaths) =
      ["/beta/os/x86_64", "/content/os", "/content/os/x86_64"] := by decide
  rw [← hnormal]
  exact decode_encodeWith Zlib.isCompressor_deflate hzero hcount

end PathTree

end EntitlementAuthority
