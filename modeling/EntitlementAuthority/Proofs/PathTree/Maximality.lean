import EntitlementAuthority.Proofs.PathTree.Branching
import EntitlementAuthority.Proofs.PathTree.Tables
import Mathlib.Data.List.Sort
import Mathlib.Data.String.Basic

/-!
# Shared trees are as small as they can be

Sharing compares the sorted edges of nodes that have got their numbers, one node after the other.
That is enough to find all nodes with the same sequences, however far down these reach.

* `SharedTree.EdgesOf`, `SharedTree.Numbered` — edges and numbers that stand for a node of a tree.
* `SharedTree.numbers` — the number that each node of a tree gets.
* `SharedTree.number_eq_iff_alike` — two nodes have one number exactly if they have the same
  sequences.
* `SharedTree.eq_of_same_edges` — two nodes of a shared tree differ in an edge.
* `SharedTree.edge_unique_of_reads` — a sequence leads along one edge of a node only.
* `SharedTree.maximally_shared` — all that is known of the shared form of the tree of some paths.
-/

namespace EntitlementAuthority

namespace PathTree

/-- The nodes below a node, each before the nodes above it. -/
def nodesBelow : PathTree → List PathTree
  | stop => []
  | edge _ below next => below.nodesBelow ++ below :: next.nodesBelow

/-- The nodes of a tree, the root last. -/
def nodes (t : PathTree) : List PathTree :=
  t.nodesBelow ++ [t]

variable {t u : PathTree}

theorem Branching.of_mem_nodesBelow (h : t.Branching) (hu : u ∈ t.nodesBelow) : u.Branching := by
  induction t with
  | stop => cases hu
  | edge s below next ihbelow ihnext =>
    obtain ⟨-, hbelow, hnext⟩ := h
    rcases List.mem_append.1 hu with hu | hu
    · exact ihbelow hbelow hu
    · rcases List.mem_cons.1 hu with rfl | hu
      · exact hbelow
      · exact ihnext hnext hu

theorem Branching.of_mem_nodes (h : t.Branching) (hu : u ∈ t.nodes) : u.Branching := by
  rcases List.mem_append.1 hu with hu | hu
  · exact h.of_mem_nodesBelow hu
  · exact List.mem_singleton.1 hu ▸ h

/-- Every tree has an end. -/
theorem stop_mem_nodes (t : PathTree) : stop ∈ t.nodes := by
  induction t with
  | stop => exact List.mem_singleton_self _
  | edge s below next ihbelow _ =>
    refine List.mem_append_left _ ?_
    rcases List.mem_append.1 ihbelow with h | h
    · exact List.mem_append_left _ h
    · exact List.mem_append_right _ (List.mem_cons.2 (.inl (List.mem_singleton.1 h)))

end PathTree

namespace SharedTree

variable {nodes nodes' : List Edges} {edges edges' : Edges} {t u v : PathTree} {m n : Nat}
  {e : String × Nat} {q : List String}

/-! ### Sorted edges -/

theorem edgeLe_iff {a b : String × Nat} :
    edgeLe a b = true ↔ a.1 < b.1 ∨ a.1 = b.1 ∧ a.2 ≤ b.2 := by
  simp [edgeLe]

theorem edgeLe_trans (a b c : String × Nat) (hab : edgeLe a b = true) (hbc : edgeLe b c = true) :
    edgeLe a c = true := by
  rw [edgeLe_iff] at hab hbc ⊢
  rcases hab with hab | ⟨hab, hle⟩
  · exact .inl (hbc.elim (lt_trans hab) fun h => h.1 ▸ hab)
  · rw [hab]
    exact hbc.imp_right fun h => ⟨h.1, Nat.le_trans hle h.2⟩

theorem edgeLe_total (a b : String × Nat) : (edgeLe a b || edgeLe b a) = true := by
  rw [Bool.or_eq_true, edgeLe_iff, edgeLe_iff]
  rcases lt_trichotomy a.1 b.1 with h | h | h
  · exact .inl (.inl h)
  · exact (Nat.le_total a.2 b.2).imp (fun hle => .inr ⟨h, hle⟩) fun hle => .inr ⟨h.symm, hle⟩
  · exact .inr (.inl h)

theorem edgeLe_antisymm {a b : String × Nat} (hab : edgeLe a b = true) (hba : edgeLe b a = true) :
    a = b := by
  rw [edgeLe_iff] at hab hba
  rcases hab with hab | ⟨hab, hle⟩
  · rcases hba with hba | ⟨hba, -⟩
    · exact absurd hba (lt_asymm hab)
    · exact absurd hba.symm (ne_of_lt hab)
  · rcases hba with hba | ⟨-, hle'⟩
    · exact absurd hab.symm (ne_of_lt hba)
    · exact Prod.ext hab (Nat.le_antisymm hle hle')

/-- Edges of which none stands twice are sorted to one list, whatever their order is. -/
theorem mergeSort_eq_of_mem_iff (hnodup : edges.Nodup) (hnodup' : edges'.Nodup)
    (h : ∀ e, e ∈ edges ↔ e ∈ edges') : edges.mergeSort edgeLe = edges'.mergeSort edgeLe := by
  have hperm : edges.Perm edges' := (List.perm_ext_iff_of_nodup hnodup hnodup').2 h
  refine List.Perm.eq_of_pairwise (fun a b _ _ => edgeLe_antisymm)
    (List.pairwise_mergeSort edgeLe_trans edgeLe_total _)
    (List.pairwise_mergeSort edgeLe_trans edgeLe_total _) ?_
  exact (List.mergeSort_perm _ _).trans (hperm.trans (List.mergeSort_perm _ _).symm)

/-! ### The number of a node -/

/-- Edges to nodes of a list stand for those of a node of a tree. -/
inductive EdgesOf (nodes : List Edges) : PathTree → Edges → Prop
  | stop : EdgesOf nodes .stop []
  | edge {s : String} {below next : PathTree} {n : Nat} {edges rest : Edges}
      (hbelow : EdgesOf nodes below edges) (hn : nodes[n]? = some (edges.mergeSort edgeLe))
      (hnext : EdgesOf nodes next rest) : EdgesOf nodes (.edge s below next) ((s, n) :: rest)

/-- A number stands for a node of a tree: the edges of the node with this number do. -/
def Numbered (nodes : List Edges) (t : PathTree) (n : Nat) : Prop :=
  ∃ edges, EdgesOf nodes t edges ∧ nodes[n]? = some (edges.mergeSort edgeLe)

theorem EdgesOf.mono (hgrown : nodes <+: nodes') (h : EdgesOf nodes t edges) :
    EdgesOf nodes' t edges := by
  induction h with
  | stop => exact .stop
  | edge _ hn _ ihbelow ihnext => exact .edge ihbelow (getElem?_of_grown hgrown hn) ihnext

theorem Numbered.mono (hgrown : nodes <+: nodes') (h : Numbered nodes t n) :
    Numbered nodes' t n := by
  obtain ⟨edges, hedges, hn⟩ := h
  exact ⟨edges, hedges.mono hgrown, getElem?_of_grown hgrown hn⟩

/-- Each of the edges is one of the node of the tree. -/
theorem EdgesOf.exists_edge (h : EdgesOf nodes t edges) (he : e ∈ edges) :
    ∃ e' ∈ t.edges, e'.1 = e.1 ∧ Numbered nodes e'.2 e.2 := by
  induction h with
  | stop => cases he
  | edge hbelow hn _ _ ihnext =>
    rcases List.mem_cons.1 he with rfl | he
    · exact ⟨_, List.mem_cons_self, rfl, _, hbelow, hn⟩
    · obtain ⟨e', he', hnumbered⟩ := ihnext he
      exact ⟨e', List.mem_cons_of_mem _ he', hnumbered⟩

/-- And each edge of the node of the tree is among them. -/
theorem EdgesOf.exists_number (h : EdgesOf nodes t edges) {e : String × PathTree}
    (he : e ∈ t.edges) : ∃ n, (e.1, n) ∈ edges ∧ Numbered nodes e.2 n := by
  induction h with
  | stop => cases he
  | edge hbelow hn _ _ ihnext =>
    rcases List.mem_cons.1 he with rfl | he
    · exact ⟨_, List.mem_cons_self, _, hbelow, hn⟩
    · obtain ⟨n, hmem, hnumbered⟩ := ihnext he
      exact ⟨n, List.mem_cons_of_mem _ hmem, hnumbered⟩

theorem EdgesOf.eq_nil_iff (h : EdgesOf nodes t edges) : edges = [] ↔ t = .stop := by
  cases h with
  | stop => exact iff_of_true rfl rfl
  | edge _ _ _ => exact iff_of_false (List.cons_ne_nil _ _) nofun

/-- The sequences along the edges are those of the node of the tree. -/
theorem EdgesOf.edgesRead_iff (h : EdgesOf nodes t edges) :
    EdgesRead nodes edges q ↔ q ∈ t.sequences := by
  induction h generalizing q with
  | stop => exact iff_of_false not_edgesRead_nil List.not_mem_nil
  | edge hbelow hn _ ihbelow ihnext =>
    rw [edgesRead_cons, PathTree.mem_sequences_edge, ihnext]
    simp only [reads_sorted_iff hn, hbelow.eq_nil_iff, ihbelow, PathTree.EndsBelow]

/-- **The node with the number of a node of a tree has its sequences.** -/
theorem Numbered.reads_iff (h : Numbered nodes t n) : Reads nodes n q ↔ t.EndsBelow q := by
  obtain ⟨edges, hedges, hn⟩ := h
  rw [reads_sorted_iff hn, hedges.eq_nil_iff, hedges.edgesRead_iff, PathTree.EndsBelow]

theorem Numbered.alike (hu : Numbered nodes u n) (hv : Numbered nodes v n) : u.Alike v :=
  fun _ => hu.reads_iff.symm.trans hv.reads_iff

/-- No edge stands twice if the node of the tree has no two edges of one kind. -/
theorem EdgesOf.nodup (h : EdgesOf nodes t edges) (ht : t.Branching) : edges.Nodup := by
  induction h with
  | stop => exact List.nodup_nil
  | edge hbelow hn hnext _ ihnext =>
    obtain ⟨hkind, -, hbranching⟩ := ht
    refine List.nodup_cons.2 ⟨fun hmem => hkind ?_, ihnext hbranching⟩
    obtain ⟨⟨s, v⟩, he, rfl, hnumbered⟩ := hnext.exists_edge hmem
    have halike := Numbered.alike ⟨_, hbelow, hn⟩ hnumbered
    exact List.mem_map.2 ⟨_, he, Prod.ext rfl halike.isStop_eq.symm⟩

/-! ### Nodes with the same sequences have one number -/

theorem eq_of_getElem? (hnodes : nodes.Nodup) (hm : nodes[m]? = some edges)
    (hn : nodes[n]? = some edges) : m = n :=
  (List.getElem?_inj (List.getElem?_eq_some_iff.1 hm).1 hnodes).1 (hm.trans hn.symm)

/-- The edges of one node are among those of the other, if there is one number for each two nodes
below them with the same sequences. -/
theorem EdgesOf.subset_of_alike (hu : u.Branching) (hv : v.Branching) (halike : u.Alike v)
    (hedges : EdgesOf nodes u edges) (hedges' : EdgesOf nodes v edges')
    (hbelow : ∀ a ∈ u.edges, ∀ b ∈ v.edges, a.2.Alike b.2 →
      ∀ j k, Numbered nodes a.2 j → Numbered nodes b.2 k → j = k) :
    ∀ e ∈ edges, e ∈ edges' := by
  rintro ⟨s, j⟩ he
  obtain ⟨a, ha, rfl, hj⟩ := hedges.exists_edge he
  obtain ⟨b, hb, hsegment, halike'⟩ := halike.exists_edge hu hv ha
  obtain ⟨k, he', hk⟩ := hedges'.exists_number hb
  obtain rfl := hbelow a ha b hb halike' j k hj hk
  exact hsegment ▸ he'

/-- A node of a tree has no other number than the nodes with the same sequences. -/
def Settled (nodes : List Edges) (u : PathTree) : Prop :=
  ∀ ⦃m v n⦄, Numbered nodes u m → Numbered nodes v n → u.Branching → v.Branching → u.Alike v → m = n

/-- The step upwards: with one number for the nodes below, the edges are the same. -/
theorem settled_of_edges (hnodes : nodes.Nodup) (h : ∀ e ∈ u.edges, Settled nodes e.2) :
    Settled nodes u := by
  rintro m v n ⟨edges, hedges, hm⟩ ⟨edges', hedges', hn⟩ hu hv halike
  have hbelow : ∀ a ∈ u.edges, ∀ b ∈ v.edges, a.2.Alike b.2 →
      ∀ j k, Numbered nodes a.2 j → Numbered nodes b.2 k → j = k :=
    fun a ha b hb halike' j k hj hk => h a ha hj hk (hu.of_edge ha) (hv.of_edge hb) halike'
  have hsubset := hedges.subset_of_alike hu hv halike hedges' hbelow
  have hsubset' := hedges'.subset_of_alike hv hu halike.symm hedges
    fun b hb a ha halike' k j hk hj => (hbelow a ha b hb halike'.symm j k hj hk).symm
  rw [mergeSort_eq_of_mem_iff (hedges.nodup hu) (hedges'.nodup hv)
    fun e => ⟨hsubset e, hsubset' e⟩] at hm
  exact eq_of_getElem? hnodes hm hn

/-- **Nodes with the same sequences have one number.** The induction is on the tree; it goes down to
the nodes below the edges. -/
theorem settled (hnodes : nodes.Nodup) (u : PathTree) : Settled nodes u := by
  have hedges : ∀ e ∈ u.edges, Settled nodes e.2 := by
    induction u with
    | stop => exact fun e he => nomatch he
    | edge s below next ihbelow ihnext =>
      intro e he
      rcases List.mem_cons.1 he with rfl | he
      · exact settled_of_edges hnodes ihbelow
      · exact ihnext e he
  exact settled_of_edges hnodes hedges

/-! ### The numbers that are given -/

/-- The numbers that the nodes below a node get, in the order in which they get them. -/
def numbersBelow : PathTree → List Edges → List (PathTree × Nat)
  | .stop, _ => []
  | .edge _ below next, nodes =>
    let (edges, nodes') := shareBelow below nodes
    let (n, nodes'') := share edges nodes'
    numbersBelow below nodes ++ (below, n) :: numbersBelow next nodes''

/-- The numbers that the nodes of a tree get. -/
def numbers (t : PathTree) : List (PathTree × Nat) :=
  numbersBelow t [] ++ [(t, (ofTree t).root)]

theorem map_fst_numbers (t : PathTree) : (numbers t).map Prod.fst = t.nodes := by
  have hbelow : ∀ nodes, (numbersBelow t nodes).map Prod.fst = t.nodesBelow := by
    induction t with
    | stop => exact fun _ => rfl
    | edge s below next ihbelow ihnext =>
      intro nodes
      simp only [numbersBelow, PathTree.nodesBelow, List.map_append, List.map_cons, ihbelow, ihnext]
  rw [numbers, List.map_append, hbelow]
  rfl

section Share

variable {result : Nat × List Edges} (h : ShareResult edges nodes result)
include h

theorem ShareResult.grown : nodes <+: result.2 := by
  cases h with
  | found n _ => exact List.prefix_refl _
  | added _ => exact List.prefix_append _ _

theorem ShareResult.getElem? : result.2[result.1]? = some (edges.mergeSort edgeLe) := by
  cases h with
  | found n hn => exact hn
  | added _ => exact List.getElem?_concat_length

theorem ShareResult.nodup (hnodes : nodes.Nodup) : result.2.Nodup := by
  cases h with
  | found n _ => exact hnodes
  | added hnew =>
    exact List.nodup_append.2 ⟨hnodes, List.nodup_singleton _,
      fun _ ha _ hb hab => hnew (List.mem_singleton.1 hb ▸ hab ▸ ha)⟩

/-- A number that was not there before is the one that is given. -/
theorem ShareResult.eq_of_new (hle : nodes.length ≤ n) (hlt : n < result.2.length) :
    result.1 = n := by
  cases h with
  | found _ _ => exact absurd hle (Nat.not_le_of_lt hlt)
  | added _ =>
    rw [List.length_append, List.length_singleton] at hlt
    exact Nat.le_antisymm hle (Nat.le_of_lt_succ hlt)

end Share

theorem shareBelow_edgesOf (t : PathTree) (nodes : List Edges) :
    nodes <+: (shareBelow t nodes).2 ∧ EdgesOf (shareBelow t nodes).2 t (shareBelow t nodes).1 := by
  induction t generalizing nodes with
  | stop => exact ⟨List.prefix_refl nodes, .stop⟩
  | edge s below next ihbelow ihnext =>
    obtain ⟨hbelow, hedges⟩ := ihbelow nodes
    have hshare := share_result (shareBelow below nodes).1 (shareBelow below nodes).2
    obtain ⟨hnext, hrest⟩ := ihnext (share (shareBelow below nodes).1 (shareBelow below nodes).2).2
    have hgrown := hshare.grown.trans hnext
    exact ⟨hbelow.trans hgrown,
      .edge (hedges.mono hgrown) (getElem?_of_grown hnext hshare.getElem?) hrest⟩

theorem nodup_shareBelow (t : PathTree) (hnodes : nodes.Nodup) : (shareBelow t nodes).2.Nodup := by
  induction t generalizing nodes with
  | stop => exact hnodes
  | edge s below next ihbelow ihnext => exact ihnext ((share_result _ _).nodup (ihbelow hnodes))

/-- The numbers that are given stand for the nodes. -/
theorem numbered_of_mem_numbersBelow {x : PathTree × Nat} (h : x ∈ numbersBelow t nodes) :
    Numbered (shareBelow t nodes).2 x.1 x.2 := by
  induction t generalizing nodes with
  | stop => cases h
  | edge s below next ihbelow ihnext =>
    have hshare := share_result (shareBelow below nodes).1 (shareBelow below nodes).2
    have hnext :=
      (shareBelow_edgesOf next (share (shareBelow below nodes).1 (shareBelow below nodes).2).2).1
    have hgrown := hshare.grown.trans hnext
    rcases List.mem_append.1 h with h | h
    · exact (ihbelow h).mono hgrown
    · rcases List.mem_cons.1 h with rfl | h
      · exact ⟨_, (shareBelow_edgesOf below nodes).2.mono hgrown,
          getElem?_of_grown hnext hshare.getElem?⟩
      · exact ihnext h

/-- Every new node has been given to a node of the tree. -/
theorem exists_mem_numbersBelow (hle : nodes.length ≤ n) (hlt : n < (shareBelow t nodes).2.length) :
    ∃ u, (u, n) ∈ numbersBelow t nodes := by
  induction t generalizing nodes with
  | stop => exact absurd hle (Nat.not_le_of_lt hlt)
  | edge s below next ihbelow ihnext =>
    by_cases hbelow : n < (shareBelow below nodes).2.length
    · obtain ⟨u, hu⟩ := ihbelow hle hbelow
      exact ⟨u, List.mem_append_left _ hu⟩
    · by_cases hshare : n < (share (shareBelow below nodes).1 (shareBelow below nodes).2).2.length
      · rw [← (share_result _ _).eq_of_new (Nat.le_of_not_lt hbelow) hshare]
        exact ⟨below, List.mem_append_right _ List.mem_cons_self⟩
      · obtain ⟨u, hu⟩ := ihnext (Nat.le_of_not_lt hshare) hlt
        exact ⟨u, List.mem_append_right _ (List.mem_cons_of_mem _ hu)⟩

/-! ### The shared form of a tree -/

theorem nodup_ofTree (t : PathTree) : (ofTree t).nodes.Nodup :=
  (share_result _ _).nodup (nodup_shareBelow t List.nodup_nil)

theorem numbered_of_mem_numbers {x : PathTree × Nat} (h : x ∈ numbers t) :
    Numbered (ofTree t).nodes x.1 x.2 := by
  have hshare := share_result (shareBelow t []).1 (shareBelow t []).2
  rcases List.mem_append.1 h with h | h
  · exact (numbered_of_mem_numbersBelow h).mono hshare.grown
  · rw [List.mem_singleton.1 h]
    exact ⟨_, (shareBelow_edgesOf t []).2.mono hshare.grown, hshare.getElem?⟩

/-- **Every node of the shared form is the number of a node of the tree.** -/
theorem exists_mem_numbers (h : n < (ofTree t).nodes.length) : ∃ u, (u, n) ∈ numbers t := by
  by_cases hbelow : n < (shareBelow t []).2.length
  · obtain ⟨u, hu⟩ := exists_mem_numbersBelow (Nat.zero_le n) hbelow
    exact ⟨u, List.mem_append_left _ hu⟩
  · refine ⟨t, List.mem_append_right _ (List.mem_singleton.2 (congrArg (Prod.mk t) ?_))⟩
    exact ((share_result _ _).eq_of_new (Nat.le_of_not_lt hbelow) h).symm

section Branching

variable (ht : t.Branching)
include ht

theorem branching_of_mem_numbers {x : PathTree × Nat} (h : x ∈ numbers t) : x.1.Branching :=
  ht.of_mem_nodes (map_fst_numbers t ▸ List.mem_map_of_mem h)

/-- **Two nodes have one number exactly if they have the same sequences.** -/
theorem number_eq_iff_alike {x y : PathTree × Nat} (hx : x ∈ numbers t) (hy : y ∈ numbers t) :
    x.2 = y.2 ↔ x.1.Alike y.1 := by
  have hnumbered := numbered_of_mem_numbers hx
  have hnumbered' := numbered_of_mem_numbers hy
  constructor
  · intro heq
    rw [← heq] at hnumbered'
    exact hnumbered.alike hnumbered'
  · exact settled (nodup_ofTree t) x.1 hnumbered hnumbered' (branching_of_mem_numbers ht hx)
      (branching_of_mem_numbers ht hy)

/-- A node of the shared form has the edges of a node of the tree, sorted. -/
theorem exists_edgesOf (h : (ofTree t).nodes[n]? = some edges) : ∃ u edges', u.Branching ∧
    EdgesOf (ofTree t).nodes u edges' ∧ edges = edges'.mergeSort edgeLe := by
  obtain ⟨u, hu⟩ := exists_mem_numbers (List.getElem?_eq_some_iff.1 h).1
  obtain ⟨edges', hedges, hn⟩ := numbered_of_mem_numbers hu
  rw [h] at hn
  exact ⟨u, edges', branching_of_mem_numbers ht hu, hedges, Option.some.inj hn⟩

/-- **Two nodes of the shared form differ in an edge.** -/
theorem eq_of_same_edges (hm : (ofTree t).nodes[m]? = some edges)
    (hn : (ofTree t).nodes[n]? = some edges') (h : ∀ e, e ∈ edges ↔ e ∈ edges') : m = n := by
  obtain ⟨u, sorted, hu, hedges, rfl⟩ := exists_edgesOf ht hm
  obtain ⟨v, sorted', hv, hedges', rfl⟩ := exists_edgesOf ht hn
  simp only [mem_sorted] at h
  rw [mergeSort_eq_of_mem_iff (hedges.nodup hu) (hedges'.nodup hv) h] at hm
  exact eq_of_getElem? (nodup_ofTree t) hm hn

/-- **A sequence leads along one edge of a node only.** -/
theorem edge_unique_of_reads {e' : String × Nat} (hn : (ofTree t).nodes[n]? = some edges)
    (he : e ∈ edges) (he' : e' ∈ edges) (hsegment : e.1 = e'.1)
    (h : Reads (ofTree t).nodes e.2 q) (h' : Reads (ofTree t).nodes e'.2 q) : e = e' := by
  obtain ⟨u, sorted, hu, hedges, rfl⟩ := exists_edgesOf ht hn
  rw [mem_sorted] at he he'
  obtain ⟨a, ha, hsegmenta, hnumbered⟩ := hedges.exists_edge he
  obtain ⟨b, hb, hsegmentb, hnumbered'⟩ := hedges.exists_edge he'
  have hkind : PathTree.kind a = PathTree.kind b := by
    refine Prod.ext (hsegmenta.trans (hsegment.trans hsegmentb.symm)) ?_
    exact (PathTree.isStop_of_endsBelow (hnumbered.reads_iff.1 h)).trans
      (PathTree.isStop_of_endsBelow (hnumbered'.reads_iff.1 h')).symm
  obtain rfl := hu.edge_unique ha hb hkind
  have hbelow := hu.of_edge ha
  refine Prod.ext hsegment ?_
  exact settled (nodup_ofTree t) a.2 hnumbered hnumbered' hbelow hbelow fun _ => Iff.rfl

end Branching

/-- One node has no edges: the one that the ends of the tree have as their number. -/
theorem exists_stop (t : PathTree) : ∃ stop, (PathTree.stop, stop) ∈ numbers t ∧
    ∀ n, (ofTree t).nodes[n]? = some [] ↔ n = stop := by
  have hstop := t.stop_mem_nodes
  rw [← map_fst_numbers] at hstop
  obtain ⟨⟨_, stop⟩, hmem, rfl⟩ := List.mem_map.1 hstop
  obtain ⟨edges, hedges, hget⟩ := numbered_of_mem_numbers hmem
  cases hedges
  rw [List.mergeSort_nil] at hget
  refine ⟨stop, hmem, fun n => ⟨fun hn => ?_, fun hn => hn ▸ hget⟩⟩
  exact eq_of_getElem? (nodup_ofTree t) hn hget

/-- **Content trees are shared as far as they can be.** In the shared form of the tree of some
paths, no two nodes have the same edges, edges lead to smaller numbers, one node has no edges, none
leads to the root, and two nodes of the tree have one number exactly if the same sequences lead from
them to the end. From the root lead the segments of the paths, along one walk for each sequence. -/
theorem maximally_shared {paths : List String}
    (h : ∃ path ∈ paths, Text.pathSegments path ≠ []) :
    let tree := PathTree.ofPaths paths
    let shared := ofTree tree
    (∀ (m n : Nat) (edges edges' : Edges), shared.nodes[m]? = some edges →
      shared.nodes[n]? = some edges' → (∀ e, e ∈ edges ↔ e ∈ edges') → m = n) ∧
    Closed shared.nodes ∧
    (∃ stop, (.stop, stop) ∈ numbers tree ∧ ∀ n : Nat, shared.nodes[n]? = some [] ↔ n = stop) ∧
    (∀ n, ∀ e ∈ shared.children n, e.2 ≠ shared.root) ∧
    (numbers tree).map Prod.fst = tree.nodes ∧
    (∀ x ∈ numbers tree, ∀ y ∈ numbers tree, x.2 = y.2 ↔ x.1.Alike y.1) ∧
    (∀ n, ∀ e ∈ shared.children n, ∀ e' ∈ shared.children n, ∀ q, e.1 = e'.1 →
      Reads shared.nodes e.2 q → Reads shared.nodes e'.2 q → e = e') ∧
    ∀ q, Reads shared.nodes shared.root q ↔ q ≠ [] ∧ q ∈ paths.map Text.pathSegments := by
  have hbranching := PathTree.branching_ofPaths paths
  have hrooted := rooted_ofTree (PathTree.ofPaths paths)
  refine ⟨fun _ _ _ _ => eq_of_same_edges hbranching, hrooted.closed, exists_stop _,
    fun _ _ he => (hrooted.target he).2, map_fst_numbers _,
    fun _ hx _ hy => number_eq_iff_alike hbranching hx hy, fun _ _ he _ he' _ =>
      edge_unique_of_reads hbranching (getElem?_of_mem_children he) he he', fun q => ?_⟩
  obtain ⟨path, hpath, hsegments⟩ := h
  have hsequence : Text.pathSegments path ∈ (PathTree.ofPaths paths).sequences :=
    PathTree.mem_sequences_ofPaths.2 ⟨hsegments, List.mem_map_of_mem hpath⟩
  have hinner : (PathTree.ofPaths paths).isStop = false := by
    rw [PathTree.isStop_of_endsBelow (.inr hsequence)]
    exact List.isEmpty_eq_false_iff.2 hsegments
  rw [(sharedNode_ofTree _).reads, PathTree.endsBelow_of_isStop_eq_false hinner,
    PathTree.mem_sequences_ofPaths]

/-- Three paths that differ in their first segment, and one without segments. -/
theorem maximally_shared_three :
    let paths := ["/a/x/y", "/b/x/y", "/", "/c/x/y"]
    let tree := PathTree.ofPaths paths
    (∃ path ∈ paths, Text.pathSegments path ≠ []) ∧
      (∀ n, ∀ e ∈ (ofTree tree).children n, e.2 ≠ (ofTree tree).root) ∧
      (∀ x ∈ numbers tree, ∀ y ∈ numbers tree, x.1.Alike y.1 → x.2 = y.2) ∧
      ∀ q, Reads (ofTree tree).nodes (ofTree tree).root q ↔
        q ≠ [] ∧ q ∈ [["a", "x", "y"], ["b", "x", "y"], [], ["c", "x", "y"]] := by
  have hsegments : ∃ path ∈ ["/a/x/y", "/b/x/y", "/", "/c/x/y"], Text.pathSegments path ≠ [] :=
    ⟨"/a/x/y", List.mem_cons_self, by decide⟩
  have hmap : ["/a/x/y", "/b/x/y", "/", "/c/x/y"].map Text.pathSegments =
      [["a", "x", "y"], ["b", "x", "y"], [], ["c", "x", "y"]] := by decide
  obtain ⟨-, -, -, hroot, -, hnumbers, -, hreads⟩ := maximally_shared hsegments
  exact ⟨hsegments, hroot, fun x hx y hy => (hnumbers x hx y hy).2, hmap ▸ hreads⟩

end SharedTree

end EntitlementAuthority
