import EntitlementAuthority.Proofs.PathTree.Sequences

/-!
# Edges of a node with one segment

A node of a tree of paths can have two edges with one segment, one to an end and one to an inner
node, but no more. So the node below an edge is known by its sequences.

* `PathTree.edges` — the edges of a node; `PathTree.mem_sequences_iff` takes a sequence apart.
* `PathTree.Branching` — no node has two edges with one segment to ends, or to inner nodes.
* `PathTree.branching_ofPaths` — the tree of a list of paths is like that.
* `PathTree.Alike` — two nodes have the same sequences; `PathTree.Alike.exists_edge` finds for an
  edge of one an edge of the other.
-/

namespace EntitlementAuthority.PathTree

/-- The edges of a node: segments and the nodes below. -/
def edges : PathTree → List (String × PathTree)
  | stop => []
  | edge s below next => (s, below) :: next.edges

/-- What can tell two edges apart: the segment, and whether the edge leads to an end. -/
def kind (e : String × PathTree) : String × Bool :=
  (e.1, e.2.isStop)

/-- No node has two edges of one kind. -/
def Branching : PathTree → Prop
  | stop => True
  | edge s below next =>
    (s, below.isStop) ∉ next.edges.map kind ∧ below.Branching ∧ next.Branching

variable {t u v : PathTree} {s : String} {q : List String} {e : String × PathTree}

/-- A sequence is the segment of an edge, and a sequence of the node below. -/
theorem mem_sequences_iff :
    q ∈ t.sequences ↔ ∃ e ∈ t.edges, ∃ rest, q = e.1 :: rest ∧ e.2.EndsBelow rest := by
  induction t with
  | stop => simp [sequences, edges]
  | edge s below next _ ih => rw [mem_sequences_edge, edges, List.exists_mem_cons_iff, ih]

theorem endsBelow_nil_iff : t.EndsBelow [] ↔ t.isStop = true := by
  cases t with
  | stop => exact iff_of_true (endsBelow_stop.2 rfl) rfl
  | edge s below next =>
    rw [endsBelow_of_isStop_eq_false rfl]
    exact iff_of_false (fun h => ne_nil_of_mem_sequences h rfl) nofun

theorem endsBelow_cons_iff : t.EndsBelow (s :: q) ↔ s :: q ∈ t.sequences :=
  or_iff_right fun h => nomatch h.2

/-- Whatever leads from a node to an end tells whether the node is one. -/
theorem isStop_of_endsBelow (h : t.EndsBelow q) : t.isStop = q.isEmpty := by
  cases q with
  | nil => exact endsBelow_nil_iff.1 h
  | cons s q =>
    cases t with
    | stop => exact absurd (endsBelow_stop.1 h) (List.cons_ne_nil s q)
    | edge s' below next => rfl

namespace Branching

/-- An edge is known by its kind. -/
theorem edge_unique (h : t.Branching) {e e' : String × PathTree} (he : e ∈ t.edges)
    (he' : e' ∈ t.edges) (hkind : kind e = kind e') : e = e' := by
  induction t with
  | stop => cases he
  | edge s below next _ ih =>
    obtain ⟨hnew, -, hnext⟩ := h
    rcases List.mem_cons.1 he with rfl | he <;> rcases List.mem_cons.1 he' with rfl | he'
    · rfl
    · exact absurd (List.mem_map.2 ⟨e', he', hkind.symm⟩) hnew
    · exact absurd (List.mem_map.2 ⟨e, he, hkind⟩) hnew
    · exact ih hnext he he'

theorem of_edge (h : t.Branching) (he : e ∈ t.edges) : e.2.Branching := by
  induction t with
  | stop => cases he
  | edge s below next _ ih =>
    rcases List.mem_cons.1 he with rfl | he
    · exact h.2.1
    · exact ih h.2.2 he

/-- The sequences of the node below an edge are those of the node above that begin with the
segment, as far as they lead to an end or not. -/
theorem endsBelow_iff (h : t.Branching) (he : e ∈ t.edges) :
    e.2.EndsBelow q ↔ t.EndsBelow (e.1 :: q) ∧ e.2.isStop = q.isEmpty := by
  rw [endsBelow_cons_iff, mem_sequences_iff]
  constructor
  · intro hends
    exact ⟨⟨e, he, q, rfl, hends⟩, isStop_of_endsBelow hends⟩
  · rintro ⟨⟨e', he', rest, heq, hends⟩, hstop⟩
    obtain ⟨hsegment, rfl⟩ := List.cons.inj heq
    have hkind : kind e = kind e' :=
      Prod.ext hsegment (hstop.trans (isStop_of_endsBelow hends).symm)
    rwa [h.edge_unique he he' hkind]

end Branching

/-! ### Nodes with the same sequences -/

/-- The same segments lead from two nodes down to an end. -/
def Alike (u v : PathTree) : Prop :=
  ∀ q, u.EndsBelow q ↔ v.EndsBelow q

theorem Alike.symm (h : u.Alike v) : v.Alike u :=
  fun q => (h q).symm

theorem Alike.isStop_eq (h : u.Alike v) : u.isStop = v.isStop := by
  rw [Bool.eq_iff_iff, ← endsBelow_nil_iff, ← endsBelow_nil_iff]
  exact h []

/-- Nodes with the same sequences have edges with the same segments to such nodes. -/
theorem Alike.exists_edge (h : u.Alike v) (hu : u.Branching) (hv : v.Branching) (he : e ∈ u.edges) :
    ∃ e' ∈ v.edges, e'.1 = e.1 ∧ e.2.Alike e'.2 := by
  obtain ⟨q, hends⟩ := exists_endsBelow e.2
  have hv' : v.EndsBelow (e.1 :: q) := (h _).1 ((hu.endsBelow_iff he).1 hends).1
  rw [endsBelow_cons_iff, mem_sequences_iff] at hv'
  obtain ⟨e', he', rest, heq, hends'⟩ := hv'
  obtain ⟨hsegment, rfl⟩ := List.cons.inj heq
  refine ⟨e', he', hsegment.symm, fun q' => ?_⟩
  rw [hu.endsBelow_iff he, hv.endsBelow_iff he', h, hsegment, isStop_of_endsBelow hends,
    isStop_of_endsBelow hends']

/-! ### The tree of a list of paths -/

theorem mem_kinds_alter {toStop : Bool} {f : PathTree → PathTree} (hnew : (f stop).isStop = toStop)
    (hold : ∀ t : PathTree, t.isStop = toStop → (f t).isStop = toStop) {k : String × Bool} :
    k ∈ (alter s toStop f t).edges.map kind ↔ k = (s, toStop) ∨ k ∈ t.edges.map kind := by
  induction t with
  | stop => simp [alter, edges, kind, hnew]
  | edge s' below next _ ih =>
    unfold alter
    split
    · rename_i h
      obtain ⟨rfl, hstop⟩ := h
      simp [edges, kind, hold below hstop, hstop]
    · simp only [edges, List.map_cons, List.mem_cons, ih]
      exact or_left_comm

/-- A change below an edge, or a new edge, keeps the kinds apart. -/
theorem Branching.alter {toStop : Bool} {f : PathTree → PathTree} (hnew : (f stop).isStop = toStop)
    (hold : ∀ t : PathTree, t.isStop = toStop → (f t).isStop = toStop)
    (hf : ∀ t : PathTree, t.Branching → (f t).Branching) (ht : t.Branching) :
    (PathTree.alter s toStop f t).Branching := by
  induction t with
  | stop => exact ⟨List.not_mem_nil, hf stop trivial, trivial⟩
  | edge s' below next _ ih =>
    obtain ⟨hkind, hbelow, hnext⟩ := ht
    unfold PathTree.alter
    split
    · rename_i h
      refine ⟨?_, hf below hbelow, hnext⟩
      rwa [hold below h.2, ← h.2]
    · rename_i h
      refine ⟨?_, hbelow, ih hnext⟩
      rw [mem_kinds_alter hnew hold, Prod.mk.injEq, not_or]
      exact ⟨h, hkind⟩

theorem Branching.insert (segments : List String) (ht : t.Branching) :
    (PathTree.insert segments t).Branching := by
  induction segments generalizing t with
  | nil => exact ht
  | cons s segments ih =>
    have hstop : ∀ t : PathTree, t.isStop = segments.isEmpty →
        (PathTree.insert segments t).isStop = segments.isEmpty := by
      intro t hstop
      cases segments with
      | nil => exact hstop
      | cons s segments => exact isStop_insert (List.cons_ne_nil s segments) t
    unfold PathTree.insert
    refine ht.alter ?_ hstop fun t => ih
    cases segments with
    | nil => rfl
    | cons s segments => exact isStop_insert (List.cons_ne_nil s segments) stop

/-- **No node of the tree of a list of paths has two edges of one kind.** -/
theorem branching_ofPaths (paths : List String) : (ofPaths paths).Branching := by
  have hfold : ∀ t : PathTree, t.Branching →
      (paths.foldl (fun t path => PathTree.insert (Text.pathSegments path) t) t).Branching := by
    induction paths with
    | nil => exact fun t ht => ht
    | cons path paths ih => exact fun t ht => ih _ (ht.insert _)
  exact hfold stop trivial

end EntitlementAuthority.PathTree
