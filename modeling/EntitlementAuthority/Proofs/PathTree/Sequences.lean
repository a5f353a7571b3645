import EntitlementAuthority.PathTree.Basic
import Mathlib.Algebra.GroupWithZero.Nat
import Mathlib.Data.List.Basic

/-!
# The sequences of a tree of paths

* `PathTree.mem_sequences_insert` — adding a sequence of segments adds this sequence and no other.
* `PathTree.mem_sequences_ofPaths` — the tree of a list of paths has the segments of each path.
* `PathTree.labels`, `PathTree.height`, `PathTree.size` — the segments on the edges of a tree, the
  length of its longest sequence, and the number of its edges.
-/

namespace EntitlementAuthority.PathTree

variable {t below next : PathTree} {s segment : String} {q segments : List String}

theorem eq_stop_of_isStop (h : t.isStop = true) : t = stop := by
  cases t with
  | stop => rfl
  | edge s below next => cases h

/-- Some segments lead from a node down to an end; from an end, none do. -/
def EndsBelow (t : PathTree) (segments : List String) : Prop :=
  t = stop ∧ segments = [] ∨ segments ∈ t.sequences

theorem endsBelow_stop : stop.EndsBelow segments ↔ segments = [] := by
  simp [EndsBelow, sequences]

theorem endsBelow_of_isStop_eq_false (h : t.isStop = false) :
    t.EndsBelow segments ↔ segments ∈ t.sequences := by
  refine or_iff_right ?_
  rintro ⟨rfl, -⟩
  cases h

/-- A sequence takes one of the edges of a node and goes on below it. -/
theorem mem_sequences_edge : q ∈ (edge s below next).sequences ↔
    (∃ segments, q = s :: segments ∧ below.EndsBelow segments) ∨ q ∈ next.sequences := by
  rw [sequences, List.mem_append]
  refine or_congr ?_ Iff.rfl
  cases hstop : below.isStop with
  | true =>
    rw [eq_stop_of_isStop hstop]
    simp only [endsBelow_stop, exists_eq_right, if_true, List.mem_singleton]
  | false =>
    simp only [endsBelow_of_isStop_eq_false hstop, Bool.false_eq_true, if_false, List.mem_map]
    exact exists_congr fun segments => by rw [and_comm, eq_comm]

theorem ne_nil_of_mem_sequences (h : q ∈ t.sequences) : q ≠ [] := by
  induction t with
  | stop => cases h
  | edge s below next _ ih =>
    rcases mem_sequences_edge.1 h with ⟨segments, rfl, -⟩ | h
    · exact List.cons_ne_nil s segments
    · exact ih h

/-! ### Adding sequences -/

theorem isStop_insert (h : segments ≠ []) (t : PathTree) : (insert segments t).isStop = false := by
  cases segments with
  | nil => exact absurd rfl h
  | cons s segments =>
    unfold insert
    cases t with
    | stop => rfl
    | edge s' below next =>
      unfold alter
      split <;> rfl

/-- If the node below an edge gains one sequence, so does the node above. -/
theorem mem_sequences_alter {toStop : Bool} {f : PathTree → PathTree}
    (hnew : ∀ rest, (f stop).EndsBelow rest ↔ rest = segments)
    (hold : ∀ t : PathTree, t.isStop = toStop →
      ∀ rest, (f t).EndsBelow rest ↔ rest = segments ∨ t.EndsBelow rest) (t : PathTree) :
    q ∈ (alter s toStop f t).sequences ↔ q = s :: segments ∨ q ∈ t.sequences := by
  induction t with
  | stop =>
    rw [alter, mem_sequences_edge]
    simp only [hnew, exists_eq_right]
  | edge s' below next _ ih =>
    unfold alter
    split
    · rename_i h
      obtain ⟨rfl, hstop⟩ := h
      rw [mem_sequences_edge, mem_sequences_edge, ← or_assoc]
      simp only [hold below hstop, and_or_left, exists_or, exists_eq_right]
    · rw [mem_sequences_edge, mem_sequences_edge, ih, or_left_comm]

/-- **Adding a sequence of segments adds this sequence and no other.** -/
theorem mem_sequences_insert (h : segments ≠ []) (t : PathTree) :
    q ∈ (insert segments t).sequences ↔ q = segments ∨ q ∈ t.sequences := by
  induction segments generalizing t q with
  | nil => exact absurd rfl h
  | cons s segments ih =>
    unfold insert
    by_cases hlast : segments = []
    · -- the last segment leads to an end, and an end stays one
      subst hlast
      refine mem_sequences_alter (fun rest => endsBelow_stop) ?_ t
      intro t hstop rest
      rw [eq_stop_of_isStop hstop]
      show stop.EndsBelow rest ↔ _
      rw [endsBelow_stop, or_self]
    · have hbelow : ∀ t rest, (insert segments t).EndsBelow rest ↔
          rest = segments ∨ rest ∈ t.sequences := by
        intro t rest
        rw [endsBelow_of_isStop_eq_false (isStop_insert hlast t), ih hlast]
      refine mem_sequences_alter ?_ ?_ t
      · intro rest
        rw [hbelow]
        exact or_iff_left List.not_mem_nil
      · intro t hstop rest
        rw [List.isEmpty_eq_false_iff.2 hlast] at hstop
        rw [hbelow, endsBelow_of_isStop_eq_false hstop]

theorem mem_sequences_foldl (paths : List String) (t : PathTree) :
    q ∈ (paths.foldl (fun t path => insert (Text.pathSegments path) t) t).sequences ↔
      (q ≠ [] ∧ q ∈ paths.map Text.pathSegments) ∨ q ∈ t.sequences := by
  induction paths generalizing t with
  | nil => simp
  | cons path paths ih =>
    rw [List.foldl_cons, ih, List.map_cons, List.mem_cons]
    by_cases h : Text.pathSegments path = []
    · rw [h]
      simp only [insert, and_or_left, ne_eq, and_not_self, false_or, and_comm]
    · rw [mem_sequences_insert h]
      have hne : q = Text.pathSegments path → q ≠ [] := fun hq => hq ▸ h
      tauto

/-- **The tree of a list of paths has the segments of each path**, if there are any. -/
theorem mem_sequences_ofPaths {paths : List String} :
    q ∈ (ofPaths paths).sequences ↔ q ≠ [] ∧ q ∈ paths.map Text.pathSegments := by
  rw [ofPaths, mem_sequences_foldl]
  exact or_iff_left List.not_mem_nil

/-! ### Measures -/

/-- The segments on the edges. -/
def labels : PathTree → List String
  | stop => []
  | edge s below next => s :: (below.labels ++ next.labels)

/-- The length of the longest sequence. -/
def height : PathTree → Nat
  | stop => 0
  | edge _ below next => max (below.height + 1) next.height

/-- The number of edges. -/
def size : PathTree → Nat
  | stop => 0
  | edge _ below next => below.size + next.size + 1

/-- Every node leads down to an end. -/
theorem exists_endsBelow (t : PathTree) : ∃ segments, t.EndsBelow segments := by
  induction t with
  | stop => exact ⟨[], endsBelow_stop.2 rfl⟩
  | edge s below next ih _ =>
    obtain ⟨segments, h⟩ := ih
    exact ⟨s :: segments, .inr (mem_sequences_edge.2 (.inl ⟨segments, rfl, h⟩))⟩

/-- Every segment on an edge is part of a sequence. -/
theorem exists_sequence_of_mem_labels (h : segment ∈ t.labels) :
    ∃ q ∈ t.sequences, segment ∈ q := by
  induction t with
  | stop => cases h
  | edge s below next ihbelow ihnext =>
    rcases List.mem_cons.1 h with rfl | h
    · obtain ⟨segments, hends⟩ := exists_endsBelow below
      exact ⟨segment :: segments, mem_sequences_edge.2 (.inl ⟨segments, rfl, hends⟩),
        List.mem_cons_self⟩
    · rcases List.mem_append.1 h with h | h
      · obtain ⟨q, hq, hsegment⟩ := ihbelow h
        exact ⟨s :: q, mem_sequences_edge.2 (.inl ⟨q, rfl, .inr hq⟩),
          List.mem_cons_of_mem s hsegment⟩
      · obtain ⟨q, hq, hsegment⟩ := ihnext h
        exact ⟨q, mem_sequences_edge.2 (.inr hq), hsegment⟩

theorem length_le_height (h : t.EndsBelow q) : q.length ≤ t.height := by
  induction t generalizing q with
  | stop =>
    rw [endsBelow_stop.1 h]
    exact Nat.le_refl 0
  | edge s below next ihbelow ihnext =>
    rw [endsBelow_of_isStop_eq_false rfl] at h
    rcases mem_sequences_edge.1 h with ⟨segments, rfl, hends⟩ | hnext
    · exact Nat.le_trans (Nat.succ_le_succ (ihbelow hends)) (Nat.le_max_left _ _)
    · exact Nat.le_trans (ihnext (.inr hnext)) (Nat.le_max_right _ _)

/-- There is a sequence as long as the tree is high. -/
theorem exists_length_eq_height (t : PathTree) : ∃ q, t.EndsBelow q ∧ q.length = t.height := by
  induction t with
  | stop => exact ⟨[], endsBelow_stop.2 rfl, rfl⟩
  | edge s below next ihbelow ihnext =>
    obtain ⟨q, hends, hlength⟩ := ihbelow
    obtain ⟨q', hends', hlength'⟩ := ihnext
    rcases Nat.le_total next.height (below.height + 1) with hle | hle
    · refine ⟨s :: q, .inr (mem_sequences_edge.2 (.inl ⟨q, rfl, hends⟩)), ?_⟩
      rw [height, Nat.max_eq_left hle, List.length_cons, hlength]
    · refine ⟨q', .inr (mem_sequences_edge.2 (.inr ?_)), ?_⟩
      · refine hends'.resolve_left ?_
        rintro ⟨-, rfl⟩
        rw [← hlength'] at hle
        exact Nat.not_succ_le_zero _ hle
      · rw [height, Nat.max_eq_right hle, hlength']

theorem size_alter_le {f : PathTree → PathTree} {count : Nat}
    (hf : ∀ t, (f t).size ≤ t.size + count) (toStop : Bool) (t : PathTree) :
    (alter s toStop f t).size ≤ t.size + count + 1 := by
  induction t with
  | stop =>
    have := hf stop
    simp only [alter, size] at this ⊢
    omega
  | edge s' below next _ ih =>
    have := hf below
    unfold alter
    split <;> simp only [size] <;> omega

theorem size_insert_le (segments : List String) (t : PathTree) :
    (insert segments t).size ≤ t.size + segments.length := by
  induction segments generalizing t with
  | nil => exact Nat.le_refl _
  | cons s segments ih => exact size_alter_le ih segments.isEmpty t

/-- A tree has no more edges than its paths have segments. -/
theorem size_ofPaths_le (paths : List String) :
    (ofPaths paths).size ≤ (paths.map fun path => (Text.pathSegments path).length).sum := by
  have hfold : ∀ t : PathTree,
      (paths.foldl (fun t path => insert (Text.pathSegments path) t) t).size ≤
        t.size + (paths.map fun path => (Text.pathSegments path).length).sum := by
    induction paths with
    | nil => exact fun t => Nat.le_refl _
    | cons path paths ih =>
      intro t
      have hinsert := size_insert_le (Text.pathSegments path) t
      have hrest := ih (insert (Text.pathSegments path) t)
      rw [List.foldl_cons, List.map_cons, List.sum_cons]
      omega
  have h := hfold stop
  rwa [size, Nat.zero_add] at h

end EntitlementAuthority.PathTree
