import EntitlementAuthority.PathTree.Decode
import EntitlementAuthority.Proofs.PathTree.Sharing
import EntitlementAuthority.Proofs.PrefixCode.Codes
import Mathlib.Data.List.Perm.Subperm

/-!
# The nodes of a shared tree, written and read back

* `SharedTree.table` — the edges of the nodes of a shared tree, as places of segments and of nodes.
* `SharedTree.mem_nodeOrder`, `SharedTree.mem_segmentOrder` — every node and every segment has its
  place.
* `SharedTree.Codable` — the edges of a table have codes.
* `NodeTable.readNodes_bits` — the nodes of a table are read back from their bits.
* `SharedTree.walks_table` — the walks of the table are the sequences of the tree.
-/

namespace EntitlementAuthority

namespace SharedTree

variable {t : SharedTree} {n : Nat} {s : String} {edges : Edges}

/-! ### The order of segments -/

theorem mem_runs (texts : List String) : s ∈ (runs texts).map Prod.snd ↔ s ∈ texts := by
  induction texts with
  | nil => exact Iff.rfl
  | cons text texts ih =>
    unfold runs
    split
    · rename_i h
      rw [h] at ih
      simp only [List.map_cons, List.map_nil, List.mem_cons, List.not_mem_nil, or_false] at ih ⊢
      rw [← ih, or_false]
    · rename_i h
      rw [h] at ih
      simp only [List.map_cons, List.mem_cons] at ih
      split
      · rename_i heq
        simp only [List.map_cons, List.mem_cons, ← ih, heq]
        tauto
      · simp only [List.map_cons, List.mem_cons, ← ih]

/-- The segments on the edges are put in order. -/
theorem mem_segmentOrder : s ∈ t.segmentOrder ↔ ∃ edges ∈ t.nodes, ∃ n, (s, n) ∈ edges := by
  have hmap : ∀ l : List (Nat × String), s ∈ (l.mergeSort fun a b => a.1 ≤ b.1).map Prod.snd ↔
      s ∈ l.map Prod.snd := by
    intro l
    simp only [List.mem_map, List.mem_mergeSort]
  unfold segmentOrder
  dsimp only
  rw [hmap, mem_runs, List.mem_mergeSort, List.mem_flatMap]
  refine exists_congr fun edges => and_congr_right fun _ => ?_
  simp only [List.mem_map, Prod.exists, exists_and_right, exists_eq_right]

theorem getElem?_idxOf {α : Type} [BEq α] [LawfulBEq α] {x : α} {l : List α} (h : x ∈ l) :
    l[l.idxOf x]? = some x := by
  have hlt := List.idxOf_lt_length_of_mem h
  rw [List.getElem?_eq_getElem hlt, List.getElem_idxOf hlt]

/-! ### The order of nodes -/

theorem nodeOrder_eq (t : SharedTree) : ∃ others more, t.nodeOrder = t.root :: (others ++ more) ∧
    (∀ n, n ∈ others ↔ n < t.nodes.length ∧ n ≠ t.root) ∧ others.length ≤ t.nodes.length ∧
    more.length ≤ 1 := by
  have hother : ∀ n, n ∈ (((((List.range t.nodes.length).filter (· != t.root)).map
      fun n => (t.parentCount n, n)).mergeSort fun a b => a.1 ≤ b.1).map Prod.snd) ↔
      n < t.nodes.length ∧ n ≠ t.root := by
    intro n
    simp only [List.mem_map, List.mem_mergeSort, List.mem_filter, List.mem_range, bne_iff_ne]
    constructor
    · rintro ⟨_, ⟨m, hm, rfl⟩, rfl⟩
      exact hm
    · intro hn
      exact ⟨_, ⟨n, hn, rfl⟩, rfl⟩
  have hlength : (((((List.range t.nodes.length).filter (· != t.root)).map
      fun n => (t.parentCount n, n)).mergeSort fun a b => a.1 ≤ b.1).map Prod.snd).length ≤
      t.nodes.length := by
    rw [List.length_map, List.length_mergeSort, List.length_map]
    exact Nat.le_trans (List.length_filter_le _ _) (Nat.le_of_eq List.length_range)
  unfold nodeOrder
  dsimp only
  split
  · exact ⟨_, [t.nodes.length], rfl, hother, hlength, Nat.le_refl 1⟩
  · exact ⟨_, [], by rw [List.append_nil], hother, hlength, Nat.zero_le 1⟩

/-- Every node has its place. -/
theorem mem_nodeOrder (h : n < t.nodes.length) : n ∈ t.nodeOrder := by
  obtain ⟨others, more, horder, hothers, -⟩ := nodeOrder_eq t
  rw [horder]
  by_cases hn : n = t.root
  · rw [hn]
    exact List.mem_cons_self
  · exact List.mem_cons_of_mem _ (List.mem_append_left _ ((hothers n).2 ⟨h, hn⟩))

theorem length_nodeOrder_le (t : SharedTree) : t.nodeOrder.length ≤ t.nodes.length + 2 := by
  obtain ⟨others, more, horder, -, hothers, hmore⟩ := nodeOrder_eq t
  rw [horder, List.length_cons, List.length_append]
  omega

theorem length_nodes_le (t : SharedTree) : t.nodes.length ≤ t.nodeOrder.length := by
  have hsubset : List.range t.nodes.length ⊆ t.nodeOrder :=
    fun n hn => mem_nodeOrder (List.mem_range.1 hn)
  have hle := (List.subperm_of_subset List.nodup_range hsubset).length_le
  rwa [List.length_range] at hle

theorem idxOf_root (t : SharedTree) : t.nodeOrder.idxOf t.root = 0 := by
  obtain ⟨others, more, horder, -⟩ := nodeOrder_eq t
  rw [horder, List.idxOf_cons_self]

/-- Only the root comes first. -/
theorem idxOf_pos (h : n ≠ t.root) : 0 < t.nodeOrder.idxOf n := by
  obtain ⟨others, more, horder, -⟩ := nodeOrder_eq t
  rw [horder, List.idxOf_cons_ne _ (Ne.symm h)]
  exact Nat.succ_pos _

/-! ### The table -/

/-- The places of the segment and of the node of an edge. -/
def place (t : SharedTree) (e : String × Nat) : Nat × Nat :=
  (t.segmentOrder.idxOf e.1, t.nodeOrder.idxOf e.2)

/-- The edges of the nodes in their order, given by places. -/
def table (t : SharedTree) : List (List (Nat × Nat)) :=
  t.nodeOrder.map fun n => (t.children n).map t.place

/-- Nodes with edges to nodes before, of which the last is the root. -/
structure Rooted (t : SharedTree) : Prop where
  closed : Closed t.nodes
  root : t.root + 1 = t.nodes.length

theorem rooted_ofTree (t : PathTree) : Rooted (ofTree t) :=
  ⟨(sharedNode_ofTree t).closed, root_ofTree t⟩

theorem children_eq (h : t.nodes[n]? = some edges) : t.children n = edges := by
  rw [children, List.getD_eq_getElem?_getD, h, Option.getD_some]

theorem getElem?_of_mem_children {e : String × Nat} (h : e ∈ t.children n) :
    t.nodes[n]? = some (t.children n) := by
  cases hn : t.nodes[n]? with
  | none =>
    rw [children, List.getD_eq_getElem?_getD, hn] at h
    cases h
  | some edges => rw [children_eq hn]

theorem segment_mem_segmentOrder {e : String × Nat} (he : e ∈ t.children n) :
    e.1 ∈ t.segmentOrder :=
  mem_segmentOrder.2 ⟨_, List.mem_of_getElem? (getElem?_of_mem_children he), e.2, he⟩

/-- An edge leads to a node that is not the root. -/
theorem Rooted.target (h : Rooted t) {e : String × Nat} (he : e ∈ t.children n) :
    e.2 < t.nodes.length ∧ e.2 ≠ t.root := by
  have hget := getElem?_of_mem_children he
  have hlt := h.closed n _ hget e he
  have hn := (List.getElem?_eq_some_iff.1 hget).1
  have hroot := h.root
  omega

end SharedTree

namespace NodeTable

/-! ### Bits -/

/-- The bits of an edge. -/
def edgeBits (segmentTrie nodeTrie : Trie) (e : Nat × Nat) : List Bool :=
  segmentTrie.code e.1 ++ nodeTrie.code e.2

/-- The bits of a node. -/
def nodeBits (segmentTrie nodeTrie : Trie) (stop : Nat) (edges : List (Nat × Nat)) : List Bool :=
  edges.flatMap (edgeBits segmentTrie nodeTrie) ++ segmentTrie.code stop

/-- The edges of a node have codes, and none has the code that ends the node. -/
structure Codable (segmentTrie nodeTrie : Trie) (stop : Nat) (edges : List (Nat × Nat)) : Prop where
  segment : ∀ e ∈ edges, e.1 ∈ segmentTrie.symbols ∧ e.1 ≠ stop
  node : ∀ e ∈ edges, e.2 ∈ nodeTrie.symbols

variable {zero one nodeTrie : Trie} {stop : Nat}

theorem readEdges_stop {bits rest : List Bool}
    (h : (Trie.node zero one).decode? bits = some (stop, rest)) :
    readEdges zero one nodeTrie stop bits = .ok ([], rest) := by
  rw [readEdges]
  split
  · rename_i h'
    rw [h] at h'
    cases h'
  · rename_i h'
    rw [h] at h'
    cases h'
    rw [if_pos rfl]

theorem readEdges_edge {bits bits' bits'' rest : List Bool} {e : Nat × Nat}
    {edges : List (Nat × Nat)}
    (hsegment : (Trie.node zero one).decode? bits = some (e.1, bits')) (hne : e.1 ≠ stop)
    (hnode : nodeTrie.decode? bits' = some (e.2, bits''))
    (hrest : readEdges zero one nodeTrie stop bits'' = .ok (edges, rest)) :
    readEdges zero one nodeTrie stop bits = .ok (e :: edges, rest) := by
  rw [readEdges]
  split
  · rename_i h'
    rw [hsegment] at h'
    cases h'
  · rename_i h'
    rw [hsegment] at h'
    cases h'
    rw [if_neg hne]
    split
    · rename_i h'
      rw [hnode] at h'
      cases h'
    · rename_i h'
      rw [hnode] at h'
      cases h'
      rw [hrest]

/-- The edges of a node are read back, up to the code that ends it. -/
theorem readEdges_bits (hstop : stop ∈ (Trie.node zero one).symbols) {edges : List (Nat × Nat)}
    (h : Codable (.node zero one) nodeTrie stop edges) (rest : List Bool) :
    readEdges zero one nodeTrie stop (nodeBits (.node zero one) nodeTrie stop edges ++ rest) =
      .ok (edges, rest) := by
  induction edges with
  | nil => exact readEdges_stop (Trie.decode?_code hstop rest)
  | cons e edges ih =>
    obtain ⟨hsegment, hne⟩ := h.segment e List.mem_cons_self
    have hnode := h.node e List.mem_cons_self
    have hrest := ih ⟨fun e' he => h.segment e' (List.mem_cons_of_mem e he),
      fun e' he => h.node e' (List.mem_cons_of_mem e he)⟩
    refine readEdges_edge ?_ hne (Trie.decode?_code hnode _) hrest
    rw [nodeBits, List.flatMap_cons, edgeBits, List.append_assoc, List.append_assoc,
      List.append_assoc, Trie.decode?_code hsegment, nodeBits, List.append_assoc]

/-- **The nodes are read back.** -/
theorem readNodes_bits (hstop : stop ∈ (Trie.node zero one).symbols)
    {table : List (List (Nat × Nat))}
    (h : ∀ edges ∈ table, Codable (.node zero one) nodeTrie stop edges) (rest : List Bool) :
    readNodes (.node zero one) nodeTrie stop table.length
      (table.flatMap (nodeBits (.node zero one) nodeTrie stop) ++ rest) = .ok table := by
  induction table with
  | nil => rfl
  | cons edges table ih =>
    rw [List.flatMap_cons, List.append_assoc, List.length_cons, readNodes, readNode,
      readEdges_bits hstop (h edges List.mem_cons_self)]
    dsimp only
    rw [ih fun edges' he => h edges' (List.mem_cons_of_mem edges he)]

/-! ### Walks -/

theorem foldl_join (segments : List String) (path : String) :
    segments.foldl (fun path segment => path ++ "/" ++ segment) path =
      path ++ joinSegments segments := by
  unfold joinSegments
  induction segments generalizing path with
  | nil => rw [List.foldl_nil, List.foldl_nil, String.append_empty]
  | cons s segments ih =>
    rw [List.foldl_cons, List.foldl_cons, ih, ih ("" ++ "/" ++ s)]
    simp only [String.append_assoc, String.empty_append]

/-- A segment more goes to the end of the path so far. -/
theorem append_joinSegments_cons (path s : String) (segments : List String) :
    path ++ joinSegments (s :: segments) = path ++ "/" ++ s ++ joinSegments segments := by
  rw [← foldl_join, ← foldl_join, List.foldl_cons]

/-- What is found behind several edges together. -/
theorem mapM_flatten {α ε : Type} {f : α → Except ε (List String)} {R : α → String → Prop}
    {l : List α} (h : ∀ x ∈ l, ∃ found, f x = .ok found ∧ ∀ q, q ∈ found ↔ R x q) :
    ∃ found, (l.mapM f >>= fun founds => Except.ok founds.flatten) = .ok found ∧
      ∀ q, q ∈ found ↔ ∃ x ∈ l, R x q := by
  suffices hfounds : ∃ founds, l.mapM f = .ok founds ∧
      ∀ q, q ∈ founds.flatten ↔ ∃ x ∈ l, R x q by
    obtain ⟨founds, hfounds, hmem⟩ := hfounds
    rw [hfounds]
    exact ⟨founds.flatten, rfl, hmem⟩
  induction l with
  | nil => exact ⟨[], rfl, by simp⟩
  | cons x l ih =>
    obtain ⟨found, hfound, hmem⟩ := h x List.mem_cons_self
    obtain ⟨founds, hfounds, hmems⟩ := ih fun y hy => h y (List.mem_cons_of_mem x hy)
    refine ⟨found :: founds, ?_, ?_⟩
    · rw [List.mapM_cons, hfound, hfounds]
      rfl
    · intro q
      rw [List.flatten_cons, List.mem_append, hmem, hmems]
      simp only [List.mem_cons, exists_eq_or_imp]

/-- A walk ends at a node without edges; one without edges finds nothing. -/
theorem walks_leaf {t : NodeTable} {n budget : Nat} (hstop : t.nodes[n]? = some [])
    (path : String) :
    ∃ found, t.walks (budget + 1) n path = .ok found ∧ ∀ q, q ∈ found ↔ q ≠ "" ∧ q = path := by
  unfold walks
  rw [hstop]
  refine ⟨_, rfl, fun q => ?_⟩
  by_cases hpath : path = ""
  · rw [hpath]
    exact iff_of_false List.not_mem_nil fun h => h.1 h.2
  · have hempty : path.isEmpty = false := by
      rw [String.isEmpty, beq_eq_false_iff_ne, ne_eq, String.utf8ByteSize_eq_zero_iff]
      exact hpath
    rw [hempty, if_neg Bool.false_ne_true, List.mem_singleton]
    exact ⟨fun hq => ⟨hq ▸ hpath, hq⟩, And.right⟩

/-- A walk from a node with edges goes on behind one of them. -/
theorem walks_edges {t : NodeTable} {budget n : Nat} {path : String} {α : Type} {l : List α}
    {place : α → Nat × Nat} {R : α → String → Prop} (hn : t.nodes[n]? = some (l.map place))
    (hne : l ≠ [])
    (h : ∀ x ∈ l, ∃ name found, t.segments[(place x).1]? = some name ∧
      t.walks budget (place x).2 (path ++ "/" ++ name) = .ok found ∧ ∀ q, q ∈ found ↔ R x q) :
    ∃ found, t.walks (budget + 1) n path = .ok found ∧ ∀ q, q ∈ found ↔ ∃ x ∈ l, R x q := by
  obtain ⟨x, l, rfl⟩ := List.exists_cons_of_ne_nil hne
  unfold walks
  rw [hn, List.map_cons]
  dsimp only
  rw [← List.map_cons, List.mapM_map]
  -- each edge is looked up and followed
  refine mapM_flatten fun y hy => ?_
  obtain ⟨name, found, hname, hfound, hmem⟩ := h y hy
  refine ⟨found, ?_, hmem⟩
  rw [Function.comp_apply, hname]
  exact hfound

end NodeTable

namespace SharedTree

variable {t : SharedTree}

/-- The table of a shared tree, with its segments. -/
def nodeTable (t : SharedTree) : NodeTable :=
  ⟨t.segmentOrder, t.table⟩

theorem getElem?_table {n : Nat} (h : n < t.nodes.length) :
    t.table[t.nodeOrder.idxOf n]? = some ((t.children n).map t.place) := by
  rw [table, List.getElem?_map, getElem?_idxOf (mem_nodeOrder h)]
  rfl

theorem append_slash_ne_empty (path s rest : String) : path ++ "/" ++ s ++ rest ≠ "" := by
  intro h
  have htoList := congrArg String.toList h
  simp [String.toList_append] at htoList

/-- A walk ends at a node without edges. -/
theorem walks_leaf {n budget : Nat} (hn : n < t.nodes.length) (hleaf : t.children n = [])
    (path : String) :
    ∃ found, t.nodeTable.walks (budget + 1) (t.nodeOrder.idxOf n) path = .ok found ∧
      ∀ q, q ∈ found ↔ q ≠ "" ∧ q = path := by
  refine NodeTable.walks_leaf ?_ path
  rw [nodeTable, getElem?_table hn, hleaf, List.map_nil]

/-- A node without edges reads nothing. -/
theorem reads_leaf {n : Nat} (hget : t.nodes[n]? = some []) {segments : List String} :
    Reads t.nodes n segments ↔ segments = [] := by
  rw [reads_iff hget]
  have hnone : ¬ EdgesRead t.nodes [] segments := by
    rintro ⟨s, m, rest, -, hmem, -⟩
    cases hmem
  simp only [hnone, or_false, true_and]

/-- **The walks of the table are the sequences of the tree.** -/
theorem walks_nodeTable (ht : Rooted t) {n budget : Nat} (hn : n < t.nodes.length)
    (hbudget : n < budget) (path : String) :
    ∃ found, t.nodeTable.walks budget (t.nodeOrder.idxOf n) path = .ok found ∧
      ∀ q, q ∈ found ↔ q ≠ "" ∧ ∃ segments, Reads t.nodes n segments ∧
        q = path ++ joinSegments segments := by
  induction budget generalizing n path with
  | zero => exact absurd hbudget (Nat.not_lt_zero n)
  | succ budget ih =>
    have hget : t.nodes[n]? = some (t.children n) := by
      rw [List.getElem?_eq_getElem hn, children_eq (List.getElem?_eq_getElem hn)]
    cases hchildren : t.children n with
    | nil =>
      rw [hchildren] at hget
      simp only [reads_leaf hget, exists_eq_left, joinSegments, List.foldl_nil,
        String.append_empty]
      exact walks_leaf hn hchildren path
    | cons e edges =>
      have hedge : ∀ e ∈ t.children n, ∃ name found,
          t.nodeTable.segments[(t.place e).1]? = some name ∧
          t.nodeTable.walks budget (t.place e).2 (path ++ "/" ++ name) = .ok found ∧
          ∀ q, q ∈ found ↔ q ≠ "" ∧ ∃ segments, Reads t.nodes e.2 segments ∧
            q = path ++ joinSegments (e.1 :: segments) := by
        intro e he
        have htarget := ht.target he
        have hlt := ht.closed n _ hget e he
        obtain ⟨found, hfound, hmem⟩ :=
          ih htarget.1 (Nat.lt_of_lt_of_le hlt (Nat.le_of_lt_succ hbudget))
          (path ++ "/" ++ e.1)
        refine ⟨e.1, found, getElem?_idxOf (segment_mem_segmentOrder he), hfound, ?_⟩
        simp only [NodeTable.append_joinSegments_cons]
        exact hmem
      obtain ⟨found, hfound, hmem⟩ := NodeTable.walks_edges (getElem?_table hn)
        (by rw [hchildren]; exact List.cons_ne_nil e edges) hedge
      refine ⟨found, hfound, fun q => (hmem q).trans ?_⟩
      simp only [reads_iff hget]
      constructor
      · rintro ⟨e', he', hq, segments, hreads, rfl⟩
        exact ⟨hq, _, .inr ⟨e'.1, e'.2, segments, rfl, he', hreads⟩, rfl⟩
      · rintro ⟨hq, _, ⟨hnil, -⟩ | ⟨s, m, rest, rfl, hmem', hreads⟩, rfl⟩
        · rw [hchildren] at hnil
          cases hnil
        · exact ⟨(s, m), hmem', hq, rest, hreads, rfl⟩

end SharedTree

end EntitlementAuthority
