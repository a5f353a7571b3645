import EntitlementAuthority.PathTree.Shared
import EntitlementAuthority.Proofs.PathTree.Sequences

/-!
# Sharing nodes

A shared tree has the sequences of the tree that it is made from, although equal nodes are kept only
once.

* `SharedTree.Reads` — segments lead from a node of a list down to an end.
* `SharedTree.Closed` — edges lead to nodes with smaller numbers, so there are no circles.
* `SharedTree.Shared` — what sharing the nodes below a node adds to a list of nodes.
* `SharedTree.shareBelow_shared` — that is what is done.
* `SharedTree.sharedNode_ofTree`, `SharedTree.root_ofTree` — the root has the sequences of the tree
  and is the last node.
-/

namespace EntitlementAuthority.SharedTree

variable {nodes nodes' nodes'' : List Edges} {edges : Edges} {n : Nat} {q : List String}

/-- Segments lead from a node along edges down to a node without edges. -/
inductive Reads (nodes : List Edges) : Nat → List String → Prop
  | stop {n : Nat} (h : nodes[n]? = some []) : Reads nodes n []
  | edge {n m : Nat} {s : String} {segments : List String} {edges : Edges}
      (h : nodes[n]? = some edges) (hmem : (s, m) ∈ edges) (hbelow : Reads nodes m segments) :
      Reads nodes n (s :: segments)

/-- Edges lead to nodes with smaller numbers. -/
def Closed (nodes : List Edges) : Prop :=
  ∀ (n : Nat) (edges : Edges), nodes[n]? = some edges → ∀ e ∈ edges, e.2 < n

/-- Segments lead along one of some edges down to an end. -/
def EdgesRead (nodes : List Edges) (edges : Edges) (q : List String) : Prop :=
  ∃ s m segments, q = s :: segments ∧ (s, m) ∈ edges ∧ Reads nodes m segments

theorem reads_iff (h : nodes[n]? = some edges) :
    Reads nodes n q ↔ edges = [] ∧ q = [] ∨ EdgesRead nodes edges q := by
  constructor
  · intro hreads
    cases hreads with
    | stop h' =>
      rw [h] at h'
      exact .inl ⟨Option.some.inj h', rfl⟩
    | edge h' hmem hbelow =>
      rw [h] at h'
      obtain rfl := Option.some.inj h'
      exact .inr ⟨_, _, _, rfl, hmem, hbelow⟩
  · rintro (⟨rfl, rfl⟩ | ⟨s, m, segments, rfl, hmem, hbelow⟩)
    · exact .stop h
    · exact .edge h hmem hbelow

theorem not_edgesRead_nil : ¬ EdgesRead nodes [] q := by
  rintro ⟨s, m, segments, -, hmem, -⟩
  cases hmem

theorem edgesRead_cons {s : String} : EdgesRead nodes ((s, n) :: edges) q ↔
    (∃ segments, q = s :: segments ∧ Reads nodes n segments) ∨ EdgesRead nodes edges q := by
  simp only [EdgesRead, List.mem_cons, Prod.mk.injEq, or_and_right, and_or_left, exists_or]
  refine or_congr ?_ Iff.rfl
  constructor
  · rintro ⟨_, _, segments, rfl, ⟨rfl, rfl⟩, hreads⟩
    exact ⟨segments, rfl, hreads⟩
  · rintro ⟨segments, rfl, hreads⟩
    exact ⟨s, n, segments, rfl, ⟨rfl, rfl⟩, hreads⟩

/-- A node that stands in a list stands in every longer one. -/
theorem getElem?_of_grown (hgrown : nodes <+: nodes') (h : nodes[n]? = some edges) :
    nodes'[n]? = some edges := by
  obtain ⟨more, rfl⟩ := hgrown
  obtain ⟨hn, -⟩ := List.getElem?_eq_some_iff.1 h
  rw [List.getElem?_append_left hn, h]

theorem getElem?_eq_of_grown (hgrown : nodes <+: nodes') (hn : n < nodes.length) :
    nodes'[n]? = nodes[n]? := by
  rw [getElem?_of_grown hgrown (List.getElem?_eq_getElem hn), List.getElem?_eq_getElem hn]

theorem Reads.lt_length (h : Reads nodes n q) : n < nodes.length := by
  cases h with
  | stop h => exact (List.getElem?_eq_some_iff.1 h).1
  | edge h _ _ => exact (List.getElem?_eq_some_iff.1 h).1

/-- More nodes do not take sequences away from a node. -/
theorem Reads.mono (hgrown : nodes <+: nodes') (h : Reads nodes n q) : Reads nodes' n q := by
  induction h with
  | stop h => exact .stop (getElem?_of_grown hgrown h)
  | edge h hmem _ ih => exact .edge (getElem?_of_grown hgrown h) hmem ih

/-- Nor do they add any. -/
theorem Reads.of_grown (hgrown : nodes <+: nodes') (hclosed : Closed nodes')
    (hn : n < nodes.length) (h : Reads nodes' n q) : Reads nodes n q := by
  induction h with
  | stop h =>
    rw [getElem?_eq_of_grown hgrown hn] at h
    exact .stop h
  | edge h hmem _ ih =>
    have hm := hclosed _ _ h _ hmem
    rw [getElem?_eq_of_grown hgrown hn] at h
    exact .edge h hmem (ih (Nat.lt_trans hm hn))

theorem reads_grown (hgrown : nodes <+: nodes') (hclosed : Closed nodes') (hn : n < nodes.length) :
    Reads nodes' n q ↔ Reads nodes n q :=
  ⟨Reads.of_grown hgrown hclosed hn, Reads.mono hgrown⟩

/-! ### Sharing one node -/

/-- A node is found, or it is new and added behind all others. -/
inductive ShareResult (edges : Edges) (nodes : List Edges) : Nat × List Edges → Prop
  | found (n : Nat) (h : nodes[n]? = some (edges.mergeSort edgeLe)) :
      ShareResult edges nodes (n, nodes)
  | added (h : edges.mergeSort edgeLe ∉ nodes) :
      ShareResult edges nodes (nodes.length, nodes ++ [edges.mergeSort edgeLe])

theorem share_result (edges : Edges) (nodes : List Edges) :
    ShareResult edges nodes (share edges nodes) := by
  unfold share
  dsimp only
  cases h : nodes.idxOf? (edges.mergeSort edgeLe) with
  | none => exact .added (List.idxOf?_eq_none_iff.1 h)
  | some n =>
    refine .found n ?_
    obtain ⟨hn, heq, -⟩ := List.findIdx?_eq_some_iff_getElem.1 h
    rw [List.getElem?_eq_getElem hn, LawfulBEq.eq_of_beq heq]

/-- What sharing the nodes below a node of a tree does: `edges` are those of the node, and `nodes'`
has the nodes below it. -/
structure Shared (t : PathTree) (nodes : List Edges) (edges : Edges) (nodes' : List Edges) :
    Prop where
  grown : nodes <+: nodes'
  closed : Closed nodes'
  bound : ∀ e ∈ edges, e.2 < nodes'.length
  reads : ∀ q, EdgesRead nodes' edges q ↔ q ∈ t.sequences
  stop : edges = [] ↔ t = .stop
  labels : ∀ e ∈ edges, e.1 ∈ t.labels
  /-- The new nodes have segments of the tree only, and lie strictly below its top. -/
  newLabels : ∀ n edges', nodes.length ≤ n → nodes'[n]? = some edges' → ∀ e ∈ edges', e.1 ∈ t.labels
  newHeights : ∀ n q, nodes.length ≤ n → Reads nodes' n q → q.length < t.height
  length_le : nodes'.length ≤ nodes.length + t.size

/-- What sharing a node of a tree does, once the nodes below it are shared. -/
structure SharedNode (t : PathTree) (nodes : List Edges) (n : Nat) (nodes' : List Edges) :
    Prop where
  grown : nodes <+: nodes'
  closed : Closed nodes'
  bound : n < nodes'.length
  reads : ∀ q, Reads nodes' n q ↔ t.EndsBelow q
  newLabels : ∀ n edges', nodes.length ≤ n → nodes'[n]? = some edges' → ∀ e ∈ edges', e.1 ∈ t.labels
  newHeights : ∀ n q, nodes.length ≤ n → Reads nodes' n q → q.length ≤ t.height
  length_le : nodes'.length ≤ nodes.length + t.size + 1

variable {t : PathTree}

theorem edgesRead_congr {edges' : Edges} (h : ∀ e, e ∈ edges ↔ e ∈ edges') :
    EdgesRead nodes edges q ↔ EdgesRead nodes edges' q := by
  simp only [EdgesRead, h]

theorem mem_sorted (e : String × Nat) : e ∈ edges.mergeSort edgeLe ↔ e ∈ edges :=
  List.mem_mergeSort

/-- Sorting its edges does not change what can be read from a node. -/
theorem reads_sorted_iff (hn : nodes[n]? = some (edges.mergeSort edgeLe)) :
    Reads nodes n q ↔ edges = [] ∧ q = [] ∨ EdgesRead nodes edges q := by
  have hnil : edges.mergeSort edgeLe = [] ↔ edges = [] := by
    rw [← List.length_eq_zero_iff, List.length_mergeSort, List.length_eq_zero_iff]
  rw [reads_iff hn, edgesRead_congr mem_sorted, hnil]

/-- What stands in a list with one more node stands in the list, or is this node. -/
theorem getElem?_concat (h : (nodes ++ [edges])[n]? = some edges') :
    nodes[n]? = some edges' ∨ n = nodes.length ∧ edges' = edges := by
  rcases Nat.lt_trichotomy n nodes.length with hlt | rfl | hgt
  · rw [List.getElem?_append_left hlt] at h
    exact .inl h
  · rw [List.getElem?_concat_length] at h
    exact .inr ⟨rfl, (Option.some.inj h).symm⟩
  · rw [List.getElem?_eq_none] at h
    · cases h
    · rw [List.length_append]
      exact hgt

section Node

variable (h : Shared t nodes edges nodes')
include h

/-- A node keeps the sequences that it has when nodes are added. -/
theorem Shared.edgesRead (hgrown : nodes' <+: nodes'') (hclosed : Closed nodes'') :
    EdgesRead nodes'' edges q ↔ q ∈ t.sequences := by
  rw [← h.reads]
  refine exists_congr fun s => exists_congr fun m => exists_congr fun segments => ?_
  refine and_congr_right fun _ => and_congr_right fun hmem => ?_
  exact reads_grown hgrown hclosed (h.bound _ hmem)

/-- A node with the edges of a tree has its sequences. -/
theorem Shared.reads_node (hgrown : nodes' <+: nodes'') (hclosed : Closed nodes'')
    (hn : nodes''[n]? = some (edges.mergeSort edgeLe)) : Reads nodes'' n q ↔ t.EndsBelow q := by
  rw [reads_sorted_iff hn, h.edgesRead hgrown hclosed, h.stop, PathTree.EndsBelow]

/-- The edges of a new node lead to nodes before. -/
theorem Shared.closed_added : Closed (nodes' ++ [edges.mergeSort edgeLe]) := by
  intro n edges' hn e he
  rcases getElem?_concat hn with hn | ⟨rfl, rfl⟩
  · exact h.closed n edges' hn e he
  · exact h.bound e ((mem_sorted e).1 he)

/-- Sharing a node once those below it are shared. -/
theorem Shared.node : SharedNode t nodes (share edges nodes').1 (share edges nodes').2 := by
  have hresult := share_result edges nodes'
  generalize share edges nodes' = result at hresult
  cases hresult with
  | found n hn =>
    exact ⟨h.grown, h.closed, (List.getElem?_eq_some_iff.1 hn).1,
      fun q => h.reads_node (List.prefix_refl _) h.closed hn, h.newLabels,
      fun n q hn hq => Nat.le_of_lt (h.newHeights n q hn hq), Nat.le_succ_of_le h.length_le⟩
  | added hnew =>
    have hgrown : nodes' <+: nodes' ++ [edges.mergeSort edgeLe] := List.prefix_append _ _
    have hreads : ∀ q, Reads (nodes' ++ [edges.mergeSort edgeLe]) nodes'.length q ↔
        t.EndsBelow q :=
      fun q => h.reads_node hgrown h.closed_added List.getElem?_concat_length
    have hlength : (nodes' ++ [edges.mergeSort edgeLe]).length = nodes'.length + 1 :=
      List.length_append
    refine ⟨h.grown.trans hgrown, h.closed_added, ?_, hreads, ?_, ?_, ?_⟩
    · rw [hlength]
      exact Nat.lt_succ_self _
    · intro n edges' hn hget e he
      rcases getElem?_concat hget with hget | ⟨rfl, rfl⟩
      · exact h.newLabels n edges' hn hget e he
      · exact h.labels e ((mem_sorted e).1 he)
    · intro n q hn hq
      by_cases hlast : n < nodes'.length
      · exact Nat.le_of_lt (h.newHeights n q hn (hq.of_grown hgrown h.closed_added hlast))
      · -- the new node is the top of the tree
        have hbound := hq.lt_length
        rw [hlength] at hbound
        obtain rfl : n = nodes'.length := Nat.le_antisymm (Nat.le_of_lt_succ hbound)
          (Nat.le_of_not_lt hlast)
        exact PathTree.length_le_height ((hreads q).1 hq)
    · rw [hlength]
      exact Nat.succ_le_succ h.length_le

end Node

/-- Without edges, nothing is shared. -/
theorem shared_stop (hclosed : Closed nodes) : Shared .stop nodes [] nodes where
  grown := List.prefix_refl nodes
  closed := hclosed
  bound := fun _ he => nomatch he
  reads := fun _ => iff_of_false not_edgesRead_nil List.not_mem_nil
  stop := iff_of_true rfl rfl
  labels := fun _ he => nomatch he
  newLabels := fun _ _ hn hget =>
    absurd hn (Nat.not_le_of_lt (List.getElem?_eq_some_iff.1 hget).1)
  newHeights := fun _ _ hn hq => absurd hn (Nat.not_le_of_lt hq.lt_length)
  length_le := Nat.le_refl _

/-- An edge more: the node below it is shared, and then the nodes below the further edges. -/
theorem Shared.edge {below next : PathTree} {s : String}
    (hnode : SharedNode below nodes n nodes') (hnext : Shared next nodes' edges nodes'') :
    Shared (.edge s below next) nodes ((s, n) :: edges) nodes'' where
  grown := hnode.grown.trans hnext.grown
  closed := hnext.closed
  bound := by
    intro e he
    rcases List.mem_cons.1 he with rfl | he
    · exact Nat.lt_of_lt_of_le hnode.bound hnext.grown.length_le
    · exact hnext.bound e he
  reads := by
    intro q
    have hbelow : ∀ segments, Reads nodes'' n segments ↔ below.EndsBelow segments := by
      intro segments
      rw [reads_grown hnext.grown hnext.closed hnode.bound, hnode.reads]
    rw [edgesRead_cons, PathTree.mem_sequences_edge, hnext.reads q]
    simp only [hbelow]
  stop := iff_of_false (List.cons_ne_nil _ _) (fun h => nomatch h)
  labels := by
    intro e he
    rcases List.mem_cons.1 he with rfl | he
    · exact List.mem_cons_self
    · exact List.mem_cons_of_mem s (List.mem_append_right _ (hnext.labels e he))
  newLabels := by
    intro k edges' hk hget e he
    by_cases hold : k < nodes'.length
    · rw [getElem?_eq_of_grown hnext.grown hold] at hget
      exact List.mem_cons_of_mem s (List.mem_append_left _ (hnode.newLabels k edges' hk hget e he))
    · exact List.mem_cons_of_mem s
        (List.mem_append_right _ (hnext.newLabels k edges' (Nat.le_of_not_lt hold) hget e he))
  newHeights := by
    intro k q hk hq
    by_cases hold : k < nodes'.length
    · have hle := hnode.newHeights k q hk (hq.of_grown hnext.grown hnext.closed hold)
      exact Nat.lt_of_lt_of_le (Nat.lt_succ_of_le hle) (Nat.le_max_left _ _)
    · exact Nat.lt_of_lt_of_le (hnext.newHeights k q (Nat.le_of_not_lt hold) hq)
        (Nat.le_max_right _ _)
  length_le := by
    have hfirst := hnode.length_le
    have hrest := hnext.length_le
    rw [PathTree.size]
    omega

/-- **Sharing the nodes below a node.** -/
theorem shareBelow_shared (t : PathTree) (hclosed : Closed nodes) :
    Shared t nodes (shareBelow t nodes).1 (shareBelow t nodes).2 := by
  induction t generalizing nodes with
  | stop => exact shared_stop hclosed
  | edge s below next ihbelow ihnext =>
    have hnode := (ihbelow hclosed).node
    exact .edge hnode (ihnext hnode.closed)

/-! ### The shared form of a tree -/

theorem closed_nil : Closed [] := by
  intro n edges h
  cases h

/-- The root is the last node: its longest sequence is longer than those of all nodes below it. -/
theorem root_ofTree (t : PathTree) : (ofTree t).root + 1 = (ofTree t).nodes.length := by
  have h := shareBelow_shared t closed_nil
  have hresult := share_result (shareBelow t []).1 (shareBelow t []).2
  show (share (shareBelow t []).1 (shareBelow t []).2).1 + 1 =
    (share (shareBelow t []).1 (shareBelow t []).2).2.length
  generalize share (shareBelow t []).1 (shareBelow t []).2 = result at hresult
  cases hresult with
  | found n hn =>
    obtain ⟨q, hends, hlength⟩ := t.exists_length_eq_height
    have hreads := (h.reads_node (List.prefix_refl _) h.closed hn).2 hends
    have hlt := h.newHeights n q (Nat.zero_le n) hreads
    exact absurd hlength (Nat.ne_of_lt hlt)
  | added hnew =>
    dsimp only
    rw [List.length_append, List.length_singleton]

/-- **The root of the shared tree has the sequences of the tree.** -/
theorem sharedNode_ofTree (t : PathTree) : SharedNode t [] (ofTree t).root (ofTree t).nodes :=
  (shareBelow_shared t closed_nil).node

end EntitlementAuthority.SharedTree
