import EntitlementAuthority.Proofs.PathTree.Cycles
import Mathlib.Data.List.Permutation

/-!
# Nodes that bytes declare

Bytes say how many nodes there are before the nodes come. Behind a dictionary with a segment in it,
the nodes have to be there, as each of them ends with a code. Behind an empty dictionary that code
has no bits, and nodes are read from nothing, as many as tables can be set up for.

* `NodeTable.eq_nodeBits_of_readEdges`, `NodeTable.readNodes_bits_prefix` — what is read as nodes
  are the bits of these nodes.
* `NodeTable.readBody_result` — so it is with the nodes behind a dictionary.
* `PathTree.decode_of_empty_dictionary` — what comes of an empty dictionary.
* `PathTree.declared_nodes_exact` — whether the nodes that are declared are there.
-/

namespace EntitlementAuthority

namespace NodeTable

/-! ### The bits of what is read -/

variable {zero one segmentTrie nodeTrie : Trie} {stop count : Nat} {bits rest : List Bool}
  {edges : List (Nat × Nat)} {nodes : List (List (Nat × Nat))}

/-- What is read as the edges of a node are the bits of the node. -/
theorem eq_nodeBits_of_readEdges (hsegments : (Trie.node zero one).symbols.Nodup)
    (hnodes : nodeTrie.symbols.Nodup)
    (h : readEdges zero one nodeTrie stop bits = .ok (edges, rest)) :
    bits = nodeBits (.node zero one) nodeTrie stop edges ++ rest := by
  fun_induction readEdges zero one nodeTrie stop bits generalizing edges with
  | case1 => cases h
  | case2 bits bits' hsegment =>
    cases h
    exact Trie.eq_code_of_decode? hsegments hsegment
  | case3 => cases h
  | case4 => cases h
  | case5 bits segment bits' hsegment hne target bits'' htarget below rest' hbelow ih =>
    cases h
    rw [Trie.eq_code_of_decode? hsegments hsegment, Trie.eq_code_of_decode? hnodes htarget,
      ih hbelow, nodeBits, nodeBits, List.flatMap_cons, edgeBits]
    simp only [List.append_assoc]

theorem eq_nodeBits_of_readNode (hsegments : segmentTrie.symbols.Nodup)
    (hnodes : nodeTrie.symbols.Nodup) (hstop : stop ∈ segmentTrie.symbols)
    (h : readNode segmentTrie nodeTrie stop bits = .ok (edges, rest)) :
    bits = nodeBits segmentTrie nodeTrie stop edges ++ rest := by
  cases segmentTrie with
  | leaf symbol =>
    -- Nothing is read here, and nothing is written for the only symbol either.
    cases h
    obtain rfl := List.mem_singleton.1 hstop
    have hcode : (Trie.leaf stop).code stop = [] :=
      congrArg Prod.snd (List.mem_singleton.1 (Trie.lookup_codes hstop).2)
    rw [nodeBits, List.flatMap_nil, hcode]
    rfl
  | node zero one => exact eq_nodeBits_of_readEdges hsegments hnodes h

/-- **What is read as nodes are the bits of these nodes**, one after the other. -/
theorem readNodes_bits_prefix (hsegments : segmentTrie.symbols.Nodup)
    (hnodes : nodeTrie.symbols.Nodup) (hstop : stop ∈ segmentTrie.symbols)
    (h : readNodes segmentTrie nodeTrie stop count bits = .ok nodes) :
    nodes.flatMap (nodeBits segmentTrie nodeTrie stop) <+: bits := by
  induction count generalizing bits nodes with
  | zero =>
    cases h
    exact List.nil_prefix
  | succ count ih =>
    rw [readNodes] at h
    split at h
    · cases h
    · rename_i edges rest hnode
      split at h
      · cases h
      · rename_i below hbelow
        cases h
        rw [eq_nodeBits_of_readNode hsegments hnodes hstop hnode, List.flatMap_cons]
        exact (List.prefix_append_right_inj _).2 (ih hbelow)

/-- Every node ends with a code. -/
theorem le_length_flatMap_nodeBits (segmentTrie nodeTrie : Trie) (stop : Nat)
    (nodes : List (List (Nat × Nat))) :
    nodes.length * (segmentTrie.code stop).length ≤
      (nodes.flatMap (nodeBits segmentTrie nodeTrie stop)).length := by
  induction nodes with
  | nil => simp
  | cons edges nodes ih =>
    rw [List.length_cons, Nat.succ_mul, List.flatMap_cons, List.length_append, nodeBits,
      List.length_append]
    omega

/-! ### Dictionaries -/

variable {segments : List String} {dictionary body bytes : Bytes} {t : NodeTable}

theorem splitZeros_fst_ne_nil (hne : dictionary ≠ []) (h : (splitZeros dictionary).2 = []) :
    (splitZeros dictionary).1 ≠ [] := by
  cases dictionary with
  | nil => exact absurd rfl hne
  | cons b bytes =>
    rcases hsplit : splitZeros bytes with ⟨parts, rest⟩
    rw [splitZeros, hsplit] at h ⊢
    dsimp only at h ⊢
    split at h
    · rename_i hzero
      rw [if_pos hzero]
      exact List.cons_ne_nil _ _
    · rename_i hzero
      rw [if_neg hzero]
      cases parts with
      | nil => cases h
      | cons part parts => exact List.cons_ne_nil _ _

theorem mapM_toText?_ne_nil {parts : List Bytes} (h : parts.mapM Bytes.toText? = some segments)
    (hne : parts ≠ []) : segments ≠ [] := by
  obtain ⟨part, parts, rfl⟩ := List.exists_cons_of_ne_nil hne
  rw [List.mapM_cons] at h
  obtain ⟨first, -, h⟩ := Option.bind_eq_some_iff.1 h
  obtain ⟨others, -, h⟩ := Option.bind_eq_some_iff.1 h
  cases h
  exact List.cons_ne_nil _ _

/-- There is a segment in every dictionary but the empty one. -/
theorem segments_ne_nil (h : readDictionary dictionary = .ok segments) (hne : dictionary ≠ []) :
    segments ≠ [] := by
  unfold readDictionary at h
  split at h
  · rename_i parts hsplit
    have hparts := splitZeros_fst_ne_nil hne (congrArg Prod.snd hsplit)
    rw [hsplit] at hparts
    split at h
    · rename_i found hfound
      cases h
      exact mapM_toText?_ne_nil hfound hparts
    · cases h
  · cases h

/-! ### Nodes behind a dictionary -/

theorem nodup_symbols_segmentLeaves (h : Trie.ofLeaves? (segmentLeaves count) = some segmentTrie) :
    segmentTrie.symbols.Nodup := by
  refine (Trie.symbols_ofLeaves?_perm h).nodup_iff.2 ?_
  rw [segmentLeaves, List.map_map]
  exact (List.map_id (List.range (count + 1))).symm ▸ List.nodup_range

theorem nodup_symbols_nodeLeaves (h : Trie.ofLeaves? (nodeLeaves count) = some nodeTrie) :
    nodeTrie.symbols.Nodup := by
  refine (Trie.symbols_ofLeaves?_perm h).nodup_iff.2 ?_
  rw [nodeLeaves, List.map_map]
  exact (List.map_id (List.range' 1 (count - 1))).symm ▸ List.nodup_range'

/-- **The nodes that are declared are read from their bits.** -/
theorem readBody_result (h : readBody segments body = .ok t)
    (hcount : readNodeCount body = .ok (count, bytes)) :
    ∃ segmentTrie nodeTrie, Trie.ofLeaves? (segmentLeaves segments.length) = some segmentTrie ∧
      Trie.ofLeaves? (nodeLeaves count) = some nodeTrie ∧ t.segments = segments ∧
      t.nodes.length = count ∧
      t.nodes.flatMap (nodeBits segmentTrie nodeTrie segments.length) <+: Bits.ofBytes bytes := by
  unfold readBody at h
  rw [hcount] at h
  dsimp only at h
  split at h
  · cases h
  · split at h
    · rename_i segmentTrie nodeTrie hsegmentTrie hnodeTrie
      split at h
      · cases h
      · rename_i nodes hnodes
        cases h
        have hstop := (Trie.mem_symbols_segmentLeaves hsegmentTrie segments.length).2 le_rfl
        exact ⟨segmentTrie, nodeTrie, hsegmentTrie, hnodeTrie, rfl, (readNodes_result hnodes).1,
          readNodes_bits_prefix (nodup_symbols_segmentLeaves hsegmentTrie)
            (nodup_symbols_nodeLeaves hnodeTrie) hstop hnodes⟩
    · cases h

/-- Behind a dictionary with segments, every node has taken a bit. -/
theorem count_le_of_readBody (h : readBody segments body = .ok t)
    (hcount : readNodeCount body = .ok (count, bytes)) (hne : segments ≠ []) :
    count ≤ 8 * bytes.length := by
  obtain ⟨segmentTrie, nodeTrie, hsegmentTrie, -, -, hlength, hbits⟩ := readBody_result h hcount
  -- The end code stands beside a segment, so that it has a bit.
  have htwo : 2 ≤ (segmentLeaves segments.length).length := by
    rw [length_segmentLeaves]
    exact Nat.succ_le_succ (List.length_pos_iff.2 hne)
  obtain ⟨zero, one, rfl⟩ := Trie.isNode_of_ofLeaves? hsegmentTrie htwo
  have hstop := (Trie.mem_symbols_segmentLeaves hsegmentTrie segments.length).2 le_rfl
  have hcode := List.length_pos_iff.2 (Trie.code_ne_nil hstop)
  calc count
      = t.nodes.length * 1 := by rw [hlength, Nat.mul_one]
    _ ≤ t.nodes.length * ((Trie.node zero one).code segments.length).length :=
        Nat.mul_le_mul_left _ hcode
    _ ≤ (t.nodes.flatMap (nodeBits (.node zero one) nodeTrie segments.length)).length :=
        le_length_flatMap_nodeBits _ _ _ _
    _ ≤ (Bits.ofBytes bytes).length := hbits.length_le
    _ = 8 * bytes.length := Bits.length_ofBytes bytes

theorem readNodes_leaf (symbol : Nat) (nodeTrie : Trie) (stop count : Nat) (bits : List Bool) :
    readNodes (.leaf symbol) nodeTrie stop count bits = .ok (List.replicate count []) := by
  induction count with
  | zero => rfl
  | succ count ih =>
    rw [readNodes, readNode]
    dsimp only
    rw [ih, List.replicate_succ]

/-- Without segments, nodes without edges are read from whatever there is. -/
theorem readBody_nil (hcount : readNodeCount body = .ok (count, bytes)) :
    readBody [] body = if count < 2 then .error (.nodeCountSmall count)
      else .ok ⟨[], List.replicate count []⟩ := by
  have hleaf : Trie.ofLeaves? (segmentLeaves ([] : List String).length) = some (.leaf 0) := by
    have hleaves : segmentLeaves ([] : List String).length = [(0, 1)] := rfl
    rw [Trie.ofLeaves?, Trie.queue, hleaves, List.map_singleton, List.mergeSort_singleton,
      Trie.joinAll]
  unfold readBody
  rw [hcount]
  dsimp only
  split
  · rfl
  · rename_i hmany
    obtain ⟨nodeTrie, hnode⟩ := Option.isSome_iff_exists.1 (Trie.isSome_ofLeaves?
      (nodeLeaves_ne_nil (Nat.le_of_not_lt hmany)))
    rw [hleaf, hnode]
    dsimp only
    rw [readNodes_leaf]

end NodeTable

/-! ### What comes of bytes -/

namespace PathTree

variable {input dictionary body bytes : Bytes} {count : Nat} {paths : List String}

theorem ne_nil_of_inflate? (h : Zlib.inflate? input = some (dictionary, body)) : input ≠ [] := by
  rintro rfl
  cases h

theorem exists_read_of_decode (hne : input ≠ []) (h : decode input = .ok paths) :
    ∃ t, NodeTable.read input = .ok t := by
  rw [decode_of_ne_nil hne] at h
  cases hread : NodeTable.read input with
  | error e =>
    rw [hread] at h
    cases h
  | ok t => exact ⟨t, rfl⟩

/-- The nodes that are read stand behind a dictionary. -/
theorem exists_readBody (hinflate : Zlib.inflate? input = some (dictionary, body)) {t : NodeTable}
    (h : NodeTable.read input = .ok t) : ∃ segments,
      NodeTable.readDictionary dictionary = .ok segments ∧
        NodeTable.readBody segments body = .ok t := by
  unfold NodeTable.read at h
  rw [hinflate] at h
  dsimp only at h
  split at h
  · cases h
  · rename_i segments hsegments
    exact ⟨segments, hsegments, h⟩

/-- An empty dictionary makes no paths, and any number of nodes from two on is taken. -/
theorem decode_of_empty_dictionary (hinflate : Zlib.inflate? input = some ([], body))
    (hcount : NodeTable.readNodeCount body = .ok (count, bytes)) :
    decode input =
      if count < 2 then .error (TreeDefect.nodeCountSmall count).fault else .ok [] := by
  have hread : NodeTable.read input = NodeTable.readBody [] body := by
    unfold NodeTable.read
    rw [hinflate]
    rfl
  rw [decode_of_ne_nil (ne_nil_of_inflate? hinflate), hread, NodeTable.readBody_nil hcount]
  by_cases hsmall : count < 2
  · rw [if_pos hsmall, if_pos hsmall]
    rfl
  · rw [if_neg hsmall, if_neg hsmall]
    obtain ⟨more, rfl⟩ := Nat.exists_eq_add_of_le' (Nat.le_of_not_lt hsmall)
    rfl

/-- What is answered for bytes is what is made of them. -/
theorem decode_of_attempt {o : Outcome (List String)} (h : attempt input = .answered o) :
    decode input = o := by
  unfold attempt at h
  split at h
  · cases h
    rfl
  · split at h
    · cases h
      rfl
    · cases h

/-- **The nodes that are declared are there**, at least a bit for each, if the dictionary is not
empty. If it is, any number of nodes is taken from two on to the largest for which all weights are
machine words, whatever follows. So many that the tables cannot be set up are never taken. -/
theorem declared_nodes_exact (hinflate : Zlib.inflate? input = some (dictionary, body))
    (hcount : NodeTable.readNodeCount body = .ok (count, bytes)) :
    (dictionary ≠ [] → ∀ paths, attempt input = .answered (.ok paths) →
        count ≤ 8 * bytes.length) ∧
      (dictionary = [] → NodeTable.WeightsFit 0 count → ∀ paths,
        attempt input = .answered (.ok paths) ↔ 2 ≤ count ∧ paths = []) ∧
      (¬ NodeTable.TablesFit count → ∀ paths, attempt input ≠ .answered (.ok paths)) := by
  refine ⟨?_, ?_, ?_⟩
  · intro hne paths hanswer
    have hdecode := decode_of_attempt hanswer
    obtain ⟨t, hread⟩ := exists_read_of_decode (ne_nil_of_inflate? hinflate) hdecode
    obtain ⟨segments, hsegments, hbody⟩ := exists_readBody hinflate hread
    exact NodeTable.count_le_of_readBody hbody hcount (NodeTable.segments_ne_nil hsegments hne)
  · rintro rfl hweights paths
    have hdeclared := NodeTable.declared_eq_ok.2 ⟨_, _, hinflate, rfl, hcount⟩
    rw [attempt_of_declared hdeclared, if_pos hweights.tablesFit, Ending.answered.injEq,
      decode_of_empty_dictionary hinflate hcount]
    by_cases hsmall : count < 2
    · rw [if_pos hsmall]
      simp [Nat.not_le.2 hsmall]
    · rw [if_neg hsmall]
      simp [Nat.le_of_not_lt hsmall, eq_comm]
  · intro hlarge paths hanswer
    have hdecode := decode_of_attempt hanswer
    obtain ⟨t, hread⟩ := exists_read_of_decode (ne_nil_of_inflate? hinflate) hdecode
    obtain ⟨segments, hsegments, -⟩ := exists_readBody hinflate hread
    have hdeclared := NodeTable.declared_eq_ok.2 ⟨_, _, hinflate, hsegments, hcount⟩
    rw [attempt_of_declared hdeclared, if_neg hlarge] at hanswer
    cases hanswer

/-- Eight nodes without edges behind the one segment `a`. Each of them takes a bit. -/
def eightNodes : Bytes :=
  [0x78, 0xda, 0x4b, 0x64, 0x00, 0x00, 0x00, 0xc4, 0x00, 0x62, 0x08, 0xff]

theorem inflate?_eightNodes : Zlib.inflate? eightNodes = some ([97, 0], [8, 255]) := by
  decide +kernel

theorem readDictionary_eightNodes : NodeTable.readDictionary [97, 0] = .ok ["a"] := by
  decide

theorem decode_eightNodes : decode eightNodes = .ok [] := by
  have hbody : NodeTable.readBody ["a"] [8, 255] = .ok ⟨["a"], List.replicate 8 []⟩ := by cbv
  have hread : NodeTable.read eightNodes = .ok ⟨["a"], List.replicate 8 []⟩ := by
    unfold NodeTable.read
    rw [inflate?_eightNodes]
    dsimp only
    rw [readDictionary_eightNodes]
    exact hbody
  rw [decode_of_ne_nil (ne_nil_of_inflate? inflate?_eightNodes), hread]
  rfl

theorem attempt_eightNodes : attempt eightNodes = .answered (.ok []) := by
  have hdeclared := NodeTable.declared_eq_ok.2
    ⟨_, _, inflate?_eightNodes, readDictionary_eightNodes, rfl⟩
  rw [attempt_of_declared hdeclared, if_pos (by decide), decode_eightNodes]

theorem declared_nodes_exact_eight :
    attempt eightNodes = .answered (.ok []) ∧ 8 ≤ 8 * ([255] : Bytes).length :=
  ⟨attempt_eightNodes, (declared_nodes_exact inflate?_eightNodes rfl).1 (List.cons_ne_nil _ _) []
    attempt_eightNodes⟩

/-- An empty dictionary and the number 127, with nothing behind it. -/
def numberAlone : Bytes := [0x78, 0xda, 0x03, 0x00, 0x00, 0x00, 0x00, 0x01, 0x7f]

theorem inflate?_numberAlone : Zlib.inflate? numberAlone = some ([], [0x7f]) := by decide +kernel

/-- 127 nodes are taken from no bytes at all. -/
theorem nodes_of_no_bytes :
    Zlib.inflate? numberAlone = some ([], [0x7f]) ∧
      NodeTable.readNodeCount [0x7f] = .ok (127, []) ∧ attempt numberAlone = .answered (.ok []) ∧
      ¬ 127 ≤ 8 * ([] : Bytes).length := by
  have hdeclared := NodeTable.declared_eq_ok.2 ⟨_, _, inflate?_numberAlone, rfl, rfl⟩
  refine ⟨inflate?_numberAlone, rfl, ?_, by decide⟩
  rw [attempt_of_declared hdeclared, if_pos (by decide)]
  exact congrArg Ending.answered (decode_of_empty_dictionary inflate?_numberAlone rfl)

end PathTree

end EntitlementAuthority
