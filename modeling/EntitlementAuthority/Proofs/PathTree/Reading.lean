import EntitlementAuthority.Proofs.PathTree.Roundtrip

/-!
# Tables that are read from any bytes

Bytes from elsewhere may declare any number of nodes and any edges. What is read of them is in
range, as the codes are those of the declared nodes and segments. Memory is taken to suffice for as
many nodes as the bytes declare.

* `NodeTable.readNodes_result`, `NodeTable.readNodes_error` — what comes of the bits of the nodes.
* `TreeDefect.CanOccur` — what can be wrong with bytes.
* `NodeTable.InRange` — edges lead to nodes that are there, by segments that are there.
* `NodeTable.inRange_of_read` — that is so in every table that is read.
* `NodeTable.canOccur_of_read` — bytes that are not read have one of the defects that bytes can have.
-/

namespace EntitlementAuthority

namespace NodeTable

variable {zero one segmentTrie nodeTrie : Trie} {stop count : Nat} {bits rest : List Bool}
  {edges : List (Nat × Nat)} {nodes : List (List (Nat × Nat))}

/-- What is read as edges has codes, and every edge takes a bit. -/
theorem readEdges_result (h : readEdges zero one nodeTrie stop bits = .ok (edges, rest)) :
    Codable (.node zero one) nodeTrie stop edges ∧ edges.length + rest.length ≤ bits.length := by
  fun_induction readEdges zero one nodeTrie stop bits generalizing edges with
  | case1 => cases h
  | case2 bits bits' hsegment =>
    cases h
    refine ⟨⟨nofun, nofun⟩, ?_⟩
    rw [List.length_nil, Nat.zero_add]
    exact Nat.le_of_lt (Trie.length_of_decode? hsegment)
  | case3 => cases h
  | case4 => cases h
  | case5 bits segment bits' hsegment hne target bits'' htarget below rest' hbelow ih =>
    cases h
    obtain ⟨hcodable, hlength⟩ := ih hbelow
    refine ⟨⟨?_, ?_⟩, ?_⟩
    · exact List.forall_mem_cons.2
        ⟨⟨Trie.mem_symbols_of_decode? hsegment, hne⟩, hcodable.segment⟩
    · exact List.forall_mem_cons.2 ⟨Trie.mem_symbols_of_decode? htarget, hcodable.node⟩
    · have hless := Trie.length_of_decode? hsegment
      have hle := Trie.length_le_of_decode? htarget
      rw [List.length_cons]
      omega

theorem readNode_result (h : readNode segmentTrie nodeTrie stop bits = .ok (edges, rest)) :
    Codable segmentTrie nodeTrie stop edges ∧ edges.length + rest.length ≤ bits.length := by
  cases segmentTrie with
  | leaf symbol =>
    cases h
    exact ⟨⟨nofun, nofun⟩, by rw [List.length_nil, Nat.zero_add]⟩
  | node zero one => exact readEdges_result h

/-- As many nodes are read as are wanted. -/
theorem readNodes_result (h : readNodes segmentTrie nodeTrie stop count bits = .ok nodes) :
    nodes.length = count ∧ (∀ edges ∈ nodes, Codable segmentTrie nodeTrie stop edges) ∧
      (nodes.map List.length).sum ≤ bits.length := by
  induction count generalizing bits nodes with
  | zero =>
    cases h
    exact ⟨rfl, nofun, Nat.zero_le _⟩
  | succ count ih =>
    rw [readNodes] at h
    split at h
    · cases h
    · rename_i edges rest hnode
      split at h
      · cases h
      · rename_i below hbelow
        cases h
        obtain ⟨hcodable, hedges⟩ := readNode_result hnode
        obtain ⟨hlength, hcodables, hsum⟩ := ih hbelow
        refine ⟨by rw [List.length_cons, hlength], List.forall_mem_cons.2 ⟨hcodable, hcodables⟩, ?_⟩
        rw [List.map_cons, List.sum_cons]
        omega

/-- Nodes are not read only if the bits end. -/
theorem readEdges_error {defect : TreeDefect}
    (h : readEdges zero one nodeTrie stop bits = .error defect) : defect = .endedMidCode := by
  fun_induction readEdges zero one nodeTrie stop bits with
  | case1 =>
    cases h
    rfl
  | case2 => cases h
  | case3 =>
    cases h
    rfl
  | case4 bits segment bits' _ _ target bits'' _ defect' hbelow ih =>
    cases h
    exact ih hbelow
  | case5 => cases h

theorem readNodes_error {defect : TreeDefect}
    (h : readNodes segmentTrie nodeTrie stop count bits = .error defect) :
    defect = .endedMidCode := by
  induction count generalizing bits with
  | zero => cases h
  | succ count ih =>
    rw [readNodes] at h
    split at h
    · rename_i hnode
      cases h
      cases segmentTrie with
      | leaf symbol => cases hnode
      | node zero one => exact readEdges_error hnode
    · split at h
      · rename_i hbelow
        cases h
        exact ih hbelow
      · cases h

end NodeTable

/-! ### Tables that are read -/

/-- A defect that bytes can have. The others would take a code without symbols, or an edge that
leads beyond the table. -/
def TreeDefect.CanOccur : TreeDefect → Prop
  | .noSymbols => False
  | .nodeMissing _ => False
  | .segmentMissing _ => False
  | _ => True

/-- A defect that bytes can have is reported as malformed data. -/
theorem TreeDefect.CanOccur.malformed {defect : TreeDefect} (h : defect.CanOccur) :
    ∃ detail, defect.fault = .malformed detail := by
  cases defect with
  | noSymbols => exact h.elim
  | _ => exact ⟨_, rfl⟩

namespace NodeTable

variable {t : NodeTable} {count : Nat} {segments : List String} {body input : Bytes}
  {defect : TreeDefect}

/-- The edges of a table lead to its nodes by its segments, and there is a root. -/
structure InRange (t : NodeTable) : Prop where
  segment : ∀ edges ∈ t.nodes, ∀ e ∈ edges, e.1 < t.segments.length
  target : ∀ edges ∈ t.nodes, ∀ e ∈ edges, e.2 < t.nodes.length
  root : 0 < t.nodes.length

/-- The number of edges of a table. -/
def edgeCount (t : NodeTable) : Nat :=
  (t.nodes.map List.length).sum

theorem length_le_of_readNodeCount {bytes : Bytes} (h : readNodeCount body = .ok (count, bytes)) :
    bytes.length ≤ body.length := by
  unfold readNodeCount at h
  split at h
  · cases h
  · rename_i first rest
    rw [List.length_cons]
    split at h
    · obtain ⟨-, rfl⟩ := Prod.mk.inj (Except.ok.inj h)
      exact Nat.le_succ _
    · dsimp only at h
      split at h
      · cases h
      · obtain ⟨-, rfl⟩ := Prod.mk.inj (Except.ok.inj h)
        rw [List.length_drop]
        omega

theorem canOccur_of_readNodeCount (h : readNodeCount body = .error defect) : defect.CanOccur := by
  unfold readNodeCount at h
  split at h
  · cases h
    trivial
  · split at h
    · cases h
    · dsimp only at h
      split at h
      · cases h
        trivial
      · cases h

theorem canOccur_of_readDictionary {dictionary : Bytes}
    (h : readDictionary dictionary = .error defect) : defect.CanOccur := by
  unfold readDictionary at h
  split at h
  · split at h
    · cases h
    · cases h
      trivial
  · cases h
    trivial

/-- In a table that is read, the edges are in range, and there are not more of them than bits. -/
theorem inRange_of_readBody (h : readBody segments body = .ok t) :
    t.InRange ∧ t.edgeCount ≤ 8 * body.length := by
  unfold readBody at h
  split at h
  · cases h
  · rename_i count bytes hcount
    split at h
    · cases h
    · split at h
      · rename_i segmentTrie nodeTrie hsegmentTrie hnodeTrie
        split at h
        · cases h
        · rename_i hnodes
          cases h
          obtain ⟨hlength, hcodable, hedges⟩ := readNodes_result hnodes
          refine ⟨⟨?_, ?_, ?_⟩, ?_⟩
          · intro edges hmem e he
            obtain ⟨hsymbol, hne⟩ := (hcodable edges hmem).segment e he
            have hle := (Trie.mem_symbols_segmentLeaves hsegmentTrie _).1 hsymbol
            exact Nat.lt_of_le_of_ne hle hne
          · intro edges hmem e he
            have hsymbol := (hcodable edges hmem).node e he
            rw [hlength]
            exact ((Trie.mem_symbols_nodeLeaves hnodeTrie _).1 hsymbol).2
          · dsimp only
            omega
          · rw [Bits.length_ofBytes] at hedges
            have hrest := length_le_of_readNodeCount hcount
            unfold edgeCount
            dsimp only
            omega
      · cases h

/-- What is wrong with bytes that are not read can be wrong. -/
theorem canOccur_of_readBody (h : readBody segments body = .error defect) : defect.CanOccur := by
  unfold readBody at h
  split at h
  · rename_i hcount
    cases h
    exact canOccur_of_readNodeCount hcount
  · rename_i count bytes _
    split at h
    · cases h
      trivial
    · rename_i hmany
      split at h
      · split at h
        · rename_i hnodes
          cases h
          rw [readNodes_error hnodes]
          trivial
        · cases h
      · -- two nodes are enough for codes
        rename_i hnone
        obtain ⟨segmentTrie, hsegment⟩ := Option.isSome_iff_exists.1 (Trie.isSome_ofLeaves?
          (segmentLeaves_ne_nil segments.length))
        obtain ⟨nodeTrie, hnode⟩ := Option.isSome_iff_exists.1 (Trie.isSome_ofLeaves?
          (nodeLeaves_ne_nil (Nat.le_of_not_lt hmany)))
        exact absurd hnode (hnone segmentTrie nodeTrie hsegment)

theorem inRange_of_read (h : read input = .ok t) : t.InRange ∧ t.edgeCount ≤ 8 * input.length := by
  unfold read at h
  split at h
  · cases h
  · rename_i dictionary body hinflate
    split at h
    · cases h
    · obtain ⟨hrange, hedges⟩ := inRange_of_readBody h
      have hbody := Zlib.length_le_of_inflate? hinflate
      exact ⟨hrange, by omega⟩

theorem canOccur_of_read (h : read input = .error defect) : defect.CanOccur := by
  unfold read at h
  split at h
  · cases h
    trivial
  · split at h
    · rename_i hdictionary
      cases h
      exact canOccur_of_readDictionary hdictionary
    · exact canOccur_of_readBody h

end NodeTable

end EntitlementAuthority
