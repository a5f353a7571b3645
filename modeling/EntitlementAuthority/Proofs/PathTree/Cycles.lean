import EntitlementAuthority.Proofs.Outcomes
import EntitlementAuthority.Proofs.PathTree.Reading
import Mathlib.Data.List.Chain
import Mathlib.Data.List.Duplicate

/-!
# Trees with circles

Bytes from elsewhere may lead from any node to any other, and declare any number of nodes. If there
are so many that the tables for them cannot be set up, reading them is broken off. All others are
read to an end: either they are malformed, or the edges lead from the root into a circle, or the
paths of the tree are listed.

* `NodeTable.HasCycle` — the edges lead from the root into a circle.
* `NodeTable.goesOn_iff_hasCycle` — a walk can be longer than there are nodes exactly if they do.
* `NodeTable.walks_result` — what is found behind a node.
* `PathTree.decode_result` — what is made of any bytes if the tables can be kept.
* `NodeTable.Bounded` — bytes that declare so few nodes that all weights are machine words.
* `PathTree.attempt_exact` — what comes of any bytes.
-/

namespace EntitlementAuthority

namespace NodeTable

variable {t : NodeTable} {count n m : Nat} {input : Bytes} {defect : TreeDefect}
  {edges : List (Nat × Nat)}

/-! ### Circles -/

/-- An edge leads from one node to another. -/
def Leads (t : NodeTable) (n m : Nat) : Prop :=
  ∃ edges, t.nodes[n]? = some edges ∧ ∃ e ∈ edges, e.2 = m

/-- Edges lead from the root to a node, and from that back to itself. -/
def HasCycle (t : NodeTable) : Prop :=
  ∃ n, Relation.ReflTransGen t.Leads 0 n ∧ Relation.TransGen t.Leads n n

/-- A walk from a node can have some number of edges. -/
def GoesOn (t : NodeTable) : Nat → Nat → Prop
  | 0, _ => True
  | count + 1, n => ∃ m, t.Leads n m ∧ GoesOn t count m

theorem InRange.lt_of_leads (ht : t.InRange) (h : t.Leads n m) : m < t.nodes.length := by
  obtain ⟨edges, hedges, e, he, rfl⟩ := h
  exact ht.target edges (List.mem_of_getElem? hedges) e he

/-- The nodes of a walk. -/
theorem GoesOn.exists_chain (ht : t.InRange) (hn : n < t.nodes.length) (h : t.GoesOn count n) :
    ∃ visited : List Nat, visited.length = count ∧ (n :: visited).IsChain t.Leads ∧
      ∀ m ∈ n :: visited, m < t.nodes.length := by
  induction count generalizing n with
  | zero => exact ⟨[], rfl, List.isChain_singleton n, by simpa using hn⟩
  | succ count ih =>
    obtain ⟨m, hleads, hon⟩ := h
    obtain ⟨visited, hlength, hchain, hrange⟩ := ih (ht.lt_of_leads hleads) hon
    exact ⟨m :: visited, by rw [List.length_cons, hlength],
      List.isChain_cons_cons.2 ⟨hleads, hchain⟩, List.forall_mem_cons.2 ⟨hn, hrange⟩⟩

/-- Among more numbers than there are nodes, one stands twice. -/
theorem exists_duplicate {visited : List Nat} {bound : Nat} (hrange : ∀ m ∈ visited, m < bound)
    (hlength : bound < visited.length) : ∃ m, List.Sublist [m, m] visited := by
  have hdup : ¬ visited.Nodup := by
    intro hnodup
    have hsubset : visited ⊆ List.range bound := fun m hm => List.mem_range.2 (hrange m hm)
    have hle := (List.subperm_of_subset hnodup hsubset).length_le
    rw [List.length_range] at hle
    omega
  obtain ⟨m, hm⟩ := List.exists_duplicate_iff_not_nodup.2 hdup
  exact ⟨m, List.duplicate_iff_sublist.1 hm⟩

/-- A walk with more edges than there are nodes comes back to a node. -/
theorem GoesOn.hasCycle (ht : t.InRange) (h : t.GoesOn (t.nodes.length + 1) 0) : t.HasCycle := by
  obtain ⟨visited, hlength, hchain, hrange⟩ := h.exists_chain ht ht.root
  have hlong : t.nodes.length < (0 :: visited).length := by
    rw [List.length_cons, hlength]
    omega
  obtain ⟨m, htwice⟩ := exists_duplicate hrange hlong
  have hlater : (0 :: visited).Pairwise (Relation.TransGen t.Leads) :=
    (hchain.imp fun _ _ => Relation.TransGen.single).pairwise
  have hback : Relation.TransGen t.Leads m m := by
    have hpair := hlater.sublist htwice
    exact (List.pairwise_cons.1 hpair).1 m List.mem_cons_self
  refine ⟨m, ?_, hback⟩
  rcases List.mem_cons.1 (htwice.subset List.mem_cons_self) with rfl | hm
  · exact .refl
  · exact ((List.pairwise_cons.1 hlater).1 m hm).to_reflTransGen

/-- Towards a circle a walk can have any number of edges. -/
theorem goesOn_of_cycle (hto : Relation.ReflTransGen t.Leads n m)
    (hback : Relation.TransGen t.Leads m m) (count : Nat) : t.GoesOn count n := by
  induction count generalizing n with
  | zero => trivial
  | succ count ih =>
    have hahead : Relation.TransGen t.Leads n m := by
      rcases Relation.reflTransGen_iff_eq_or_transGen.1 hto with rfl | hto
      · exact hback
      · exact hto
    obtain ⟨next, hleads, hto'⟩ := Relation.TransGen.head'_iff.1 hahead
    exact ⟨next, hleads, ih hto'⟩

/-- **A walk can have more edges than there are nodes exactly if the edges lead into a circle.** -/
theorem goesOn_iff_hasCycle (ht : t.InRange) :
    t.GoesOn (t.nodes.length + 1) 0 ↔ t.HasCycle :=
  ⟨GoesOn.hasCycle ht, fun ⟨_, hto, hback⟩ => goesOn_of_cycle hto hback _⟩

/-! ### What is found -/

/-- The edges of the nodes, with their segments. -/
def labelled (t : NodeTable) : List Edges :=
  t.nodes.map fun edges => edges.map fun e => (t.segments.getD e.1 "", e.2)

variable {budget : Nat} {path : String}

theorem goesOn_succ_iff (hn : t.nodes[n]? = some edges) :
    t.GoesOn (budget + 1) n ↔ ∃ e ∈ edges, t.GoesOn budget e.2 := by
  constructor
  · rintro ⟨m, ⟨edges', hedges, e, he, rfl⟩, hon⟩
    rw [hn] at hedges
    cases hedges
    exact ⟨e, he, hon⟩
  · rintro ⟨e, he, hon⟩
    exact ⟨e.2, ⟨edges, hn, e, he, rfl⟩, hon⟩

theorem getElem?_labelled (hn : t.nodes[n]? = some edges) :
    t.labelled[n]? = some (edges.map fun e => (t.segments.getD e.1 "", e.2)) := by
  rw [labelled, List.getElem?_map, hn, Option.map_some]

/-- A node from which walks go on too long is not walked. -/
theorem walks_cycle {budget : Nat} {path : String} (hn : t.nodes[n]? = some edges)
    (hname : ∀ e ∈ edges, t.segments[e.1]? = some (t.segments.getD e.1 ""))
    (h : ∀ e ∈ edges, ∀ path, t.walks budget e.2 path = .error .cycle ∨
      ∃ found, t.walks budget e.2 path = .ok found)
    (hcycle : ∃ e ∈ edges, ∀ path, t.walks budget e.2 path = .error .cycle) :
    t.walks (budget + 1) n path = .error .cycle := by
  have hne : edges ≠ [] := by
    rintro rfl
    obtain ⟨e, he, -⟩ := hcycle
    cases he
  obtain ⟨first, others, rfl⟩ := List.exists_cons_of_ne_nil hne
  unfold walks
  rw [hn]
  dsimp only
  rw [mapM_eq_error, except_error_bind]
  · intro e he
    rw [hname e he]
    exact h e he _
  · obtain ⟨e, he, hcycle⟩ := hcycle
    refine ⟨e, he, ?_⟩
    rw [hname e he]
    exact hcycle _

/-- The labels of a walk from a node without edges, or of one that goes on along one of its edges. -/
theorem reads_labelled_iff (hn : t.nodes[n]? = some edges) {segments : List String} :
    SharedTree.Reads t.labelled n segments ↔ edges = [] ∧ segments = [] ∨
      ∃ e ∈ edges, ∃ below, segments = t.segments.getD e.1 "" :: below ∧
        SharedTree.Reads t.labelled e.2 below := by
  rw [SharedTree.reads_iff (getElem?_labelled hn), List.map_eq_nil_iff]
  refine or_congr_right ?_
  constructor
  · rintro ⟨s, m, below, rfl, hmem, hbelow⟩
    obtain ⟨e, he, hplace⟩ := List.mem_map.1 hmem
    cases hplace
    exact ⟨e, he, below, rfl, hbelow⟩
  · rintro ⟨e, he, below, rfl, hbelow⟩
    exact ⟨_, _, below, rfl, List.mem_map_of_mem he, hbelow⟩

/-- The labels of all walks from a node down to the ends are found. -/
def FindsAll (t : NodeTable) (budget n : Nat) (path : String) : Prop :=
  ∃ found, t.walks budget n path = .ok found ∧
    ∀ q, q ∈ found ↔ q ≠ "" ∧ ∃ segments, SharedTree.Reads t.labelled n segments ∧
      q = path ++ joinSegments segments

/-- All is found behind a node if all is found behind the nodes that its edges lead to. -/
theorem findsAll_of_edges {path : String} (hn : t.nodes[n]? = some edges)
    (hname : ∀ e ∈ edges, t.segments[e.1]? = some (t.segments.getD e.1 ""))
    (h : ∀ e ∈ edges, ∀ path, t.FindsAll budget e.2 path) : t.FindsAll (budget + 1) n path := by
  by_cases hleaf : edges = []
  · subst hleaf
    obtain ⟨found, hfound, hfounds⟩ : ∃ found, t.walks (budget + 1) n path = .ok found ∧
      ∀ q, q ∈ found ↔ q ≠ "" ∧ q = path := walks_leaf hn path
    refine ⟨found, hfound, fun q => (hfounds q).trans (and_congr_right fun _ => ?_)⟩
    simp [reads_labelled_iff hn, joinSegments]
  · have hsame : t.nodes[n]? = some (edges.map id) := by rwa [List.map_id]
    obtain ⟨found, hfound, hfounds⟩ := walks_edges hsame hleaf fun e he => by
      obtain ⟨found, hfound, hfounds⟩ := h e he (path ++ "/" ++ t.segments.getD e.1 "")
      exact ⟨_, found, hname e he, hfound, hfounds⟩
    refine ⟨found, hfound, fun q => (hfounds q).trans ?_⟩
    simp only [reads_labelled_iff hn, hleaf, false_and, false_or, ← append_joinSegments_cons]
    constructor
    · rintro ⟨e, he, hq, below, hreads, rfl⟩
      exact ⟨hq, _, ⟨e, he, below, rfl, hreads⟩, rfl⟩
    · rintro ⟨hq, _, ⟨e, he, below, rfl, hreads⟩, rfl⟩
      exact ⟨e, he, hq, below, hreads, rfl⟩

/-- **What is found behind a node.** If a walk can have too many edges, a circle is reported; if not,
the labels of all walks down to the ends are found. -/
theorem walks_result (ht : t.InRange) (hn : n < t.nodes.length) (budget : Nat) (path : String) :
    (t.GoesOn budget n → t.walks budget n path = .error .cycle) ∧
      (¬ t.GoesOn budget n → t.FindsAll budget n path) := by
  induction budget generalizing n path with
  | zero => exact ⟨fun _ => rfl, fun h => absurd trivial h⟩
  | succ budget ih =>
    obtain ⟨edges, hedges⟩ : ∃ edges, t.nodes[n]? = some edges :=
      ⟨_, List.getElem?_eq_getElem hn⟩
    have hmem := List.mem_of_getElem? hedges
    have hname : ∀ e ∈ edges, t.segments[e.1]? = some (t.segments.getD e.1 "") := by
      intro e he
      have hlt := ht.segment edges hmem e he
      rw [List.getD_eq_getElem?_getD, List.getElem?_eq_getElem hlt, Option.getD_some]
    have hbelow := fun e he path => ih (ht.target edges hmem e he) path
    rw [goesOn_succ_iff hedges]
    refine ⟨?_, ?_⟩
    · rintro ⟨e, he, hon⟩
      refine walks_cycle hedges hname ?_ ⟨e, he, fun path => (hbelow e he path).1 hon⟩
      intro e' he' path
      by_cases hon' : t.GoesOn budget e'.2
      · exact .inl ((hbelow e' he' path).1 hon')
      · obtain ⟨found, hfound, -⟩ := (hbelow e' he' path).2 hon'
        exact .inr ⟨found, hfound⟩
    · intro hstays
      refine findsAll_of_edges hedges hname fun e he path => ?_
      exact (hbelow e he path).2 fun hon => hstays ⟨e, he, hon⟩

/-- A path is made of the labels of a walk from the root to a node without edges. A root without
edges makes none. -/
def IsPath (t : NodeTable) (q : String) : Prop :=
  ∃ segments, segments ≠ [] ∧ SharedTree.Reads t.labelled 0 segments ∧ q = joinSegments segments

/-- **What is found in a table**: a circle, if the edges lead into one, and all paths if not. -/
theorem paths_result (ht : t.InRange) : (t.HasCycle → t.paths = .error .cycle) ∧
    (¬ t.HasCycle → ∃ found, t.paths = .ok found ∧ ∀ q, q ∈ found ↔ t.IsPath q) := by
  rw [← goesOn_iff_hasCycle ht]
  obtain ⟨hcycle, hfound⟩ := walks_result ht ht.root (t.nodes.length + 1) ""
  refine ⟨hcycle, fun hnone => ?_⟩
  obtain ⟨found, hpaths, hmem⟩ := hfound hnone
  refine ⟨found, hpaths, fun q => (hmem q).trans ?_⟩
  simp only [String.empty_append]
  constructor
  · rintro ⟨hq, segments, hreads, rfl⟩
    refine ⟨segments, ?_, hreads, rfl⟩
    rintro rfl
    exact hq rfl
  · rintro ⟨segments, hne, hreads, rfl⟩
    exact ⟨PathTree.joinSegments_ne_empty hne, segments, hreads, rfl⟩

-- a node that is reached twice makes no circle yet, but one that leads back to itself does
example : (NodeTable.mk ["a", "b"] [[(0, 1), (1, 2)], [(0, 2)], []]).paths = .ok ["/a/a", "/b"] := by
  decide

example : (NodeTable.mk ["a"] [[(0, 1)], [(0, 1)]]).paths = .error .cycle := by decide

/-- What is wrong with bytes can be wrong. -/
theorem canOccur_of_paths (h : (read input).bind paths = .error defect) : defect.CanOccur := by
  cases hread : read input with
  | error defect' =>
    rw [hread] at h
    cases h
    exact canOccur_of_read hread
  | ok t =>
    rw [hread] at h
    have h : t.paths = .error defect := h
    obtain ⟨hcycle, hfound⟩ := paths_result (inRange_of_read hread).1
    by_cases hhas : t.HasCycle
    · rw [hcycle hhas] at h
      cases h
      trivial
    · obtain ⟨found, hok, -⟩ := hfound hhas
      rw [hok] at h
      cases h

end NodeTable

/-! ### What comes of bytes -/

namespace PathTree

variable {input : Bytes} {t : NodeTable}

theorem decode_of_ne_nil (h : input ≠ []) : decode input =
    match (NodeTable.read input).bind NodeTable.paths with
    | .ok paths => .ok (Text.sortedSet paths)
    | .error e => .error e.fault := by
  have hempty : ¬ input.isEmpty = true := by simpa using h
  unfold decode
  exact if_neg hempty

theorem ne_nil_of_read (h : NodeTable.read input = .ok t) : input ≠ [] := by
  rintro rfl
  cases h

/-- What comes of a table that has been read. -/
theorem decode_of_read (h : NodeTable.read input = .ok t) :
    (t.HasCycle → decode input = .error TreeDefect.cycle.fault) ∧
      (¬ t.HasCycle → ∃ paths, decode input = .ok paths ∧ paths.Pairwise (· < ·) ∧
        ∀ q, q ∈ paths ↔ t.IsPath q) := by
  rw [decode_of_ne_nil (ne_nil_of_read h), h]
  show (_ → (match t.paths with | .ok paths => _ | .error e => _) = _) ∧ _
  obtain ⟨hcycle, hfound⟩ := NodeTable.paths_result (NodeTable.inRange_of_read h).1
  constructor
  · intro hhas
    rw [hcycle hhas]
  · intro hnone
    obtain ⟨found, hpaths, hmem⟩ := hfound hnone
    refine ⟨Text.sortedSet found, ?_, Text.sortedSet_increasing found, fun q => ?_⟩
    · show (match t.paths with | .ok paths => _ | .error e => _) = _
      rw [hpaths]
    · rw [Text.mem_sortedSet, hmem]

/-- What is made of bytes. No bytes hold no paths. Whatever cannot be read is malformed, and neither a
code without symbols nor an edge beyond the table is ever met. In a table that is read, every edge
has taken a bit. A circle is reported exactly if the edges lead from the root into one; if they do
not, the paths are listed in order and each once. -/
theorem decode_result (input : Bytes) :
    (input = [] → decode input = .ok []) ∧
      (∀ e, decode input = .error e → ∃ detail, e = .malformed detail) ∧
      (∀ defect, (NodeTable.read input).bind NodeTable.paths = .error defect → defect.CanOccur) ∧
      (∀ defect, input ≠ [] → NodeTable.read input = .error defect →
        decode input = .error defect.fault) ∧
      ∀ t, NodeTable.read input = .ok t → t.edgeCount ≤ 8 * input.length ∧
        (decode input = .error TreeDefect.cycle.fault ↔ t.HasCycle) ∧
        (¬ t.HasCycle → ∃ paths, decode input = .ok paths ∧ paths.Pairwise (· < ·) ∧
          ∀ q, q ∈ paths ↔ t.IsPath q) := by
  refine ⟨?_, ?_, fun _ => NodeTable.canOccur_of_paths, ?_, ?_⟩
  · rintro rfl
    rfl
  · intro e h
    by_cases hnil : input = []
    · subst hnil
      cases h
    · rw [decode_of_ne_nil hnil] at h
      split at h
      · cases h
      · rename_i defect hdefect
        cases h
        exact (NodeTable.canOccur_of_paths hdefect).malformed
  · intro defect hne h
    rw [decode_of_ne_nil hne, h]
    rfl
  · intro t h
    obtain ⟨hcycle, hfound⟩ := decode_of_read h
    refine ⟨(NodeTable.inRange_of_read h).2, ⟨fun herror => ?_, hcycle⟩, hfound⟩
    by_contra hnone
    obtain ⟨paths, hok, -⟩ := hfound hnone
    rw [hok] at herror
    cases herror

end PathTree

/-! ### Tables that can be set up -/

namespace NodeTable

variable {segments : List String} {dictionary body bytes : Bytes}

/-- What is declared stands in the dictionary and in the number behind it. -/
theorem declared_eq_ok : declared input = .ok (segments, count, bytes) ↔
    ∃ dictionary body, Zlib.inflate? input = some (dictionary, body) ∧
      readDictionary dictionary = .ok segments ∧ readNodeCount body = .ok (count, bytes) := by
  unfold declared
  constructor
  · intro h
    split at h
    · cases h
    · rename_i dictionary body hinflate
      split at h
      · cases h
      · rename_i segments' hsegments
        cases hcount : readNodeCount body with
        | error e =>
          rw [hcount] at h
          cases h
        | ok found =>
          rw [hcount] at h
          cases h
          exact ⟨dictionary, body, hinflate, hsegments, hcount⟩
  · rintro ⟨dictionary, body, hinflate, hsegments, hcount⟩
    rw [hinflate]
    dsimp only
    rw [hsegments]
    dsimp only
    rw [hcount]
    rfl

/-- The weights in the codes for some segments and nodes have sums that are machine words. -/
def WeightsFit (segmentCount count : Nat) : Prop :=
  ((segmentLeaves segmentCount).map Prod.snd).sum < 2 ^ 64 ∧
    ((nodeLeaves count).map Prod.snd).sum < 2 ^ 64

/-- Bytes that declare so few segments and nodes that all weights are machine words. -/
def Bounded (input : Bytes) : Prop :=
  ∀ segments count bytes, declared input = .ok (segments, count, bytes) →
    WeightsFit segments.length count

theorem two_mul_sum_range' (n : Nat) : 2 * (List.range' 1 n).sum = n * (n + 1) := by
  induction n with
  | zero => rfl
  | succ n ih =>
    rw [List.range'_1_concat, List.sum_append, List.sum_singleton, Nat.mul_add, ih]
    ring

/-- Tables for so many nodes are small. -/
theorem WeightsFit.tablesFit {segmentCount : Nat} (h : WeightsFit segmentCount count) :
    TablesFit count := by
  have hsum : (nodeLeaves count).map Prod.snd = List.range' 1 (count - 1) := by
    rw [nodeLeaves, List.map_map]
    exact List.map_id _
  have htwice := two_mul_sum_range' (count - 1)
  have hfit := h.2
  rw [hsum] at hfit
  have hfew : count - 1 < 2 ^ 33 := by
    by_contra hmany
    have hmany : 2 ^ 33 ≤ count - 1 := Nat.le_of_not_lt hmany
    have hsquare : 2 ^ 33 * 2 ^ 33 ≤ (count - 1) * (count - 1 + 1) :=
      Nat.mul_le_mul hmany (Nat.le_succ_of_le hmany)
    omega
  unfold TablesFit tableLimit
  omega

end NodeTable

namespace PathTree

variable {input bytes : Bytes} {segments : List String} {count : Nat}

theorem attempt_of_declared (h : NodeTable.declared input = .ok (segments, count, bytes)) :
    attempt input = if NodeTable.TablesFit count then .answered (decode input) else .brokenOff := by
  unfold attempt
  rw [h]

/-- An answer is given if the tables can be set up. -/
theorem attempt_of_fits (h : ∀ segments count bytes,
    NodeTable.declared input = .ok (segments, count, bytes) → NodeTable.TablesFit count) :
    attempt input = .answered (decode input) := by
  rcases hdeclared : NodeTable.declared input with e | ⟨segments, count, bytes⟩
  · unfold attempt
    rw [hdeclared]
  · rw [attempt_of_declared hdeclared, if_pos (h segments count bytes hdeclared)]

/-- **What comes of any bytes.** If they declare so many nodes that the tables cannot be set up, the
call is broken off. If they declare few enough, there is an answer. No bytes hold no paths. Whatever
cannot be read is malformed, and neither a code without symbols nor an edge beyond the table is ever
met. In a table that is read, every edge has taken a bit. A circle is reported exactly if the edges
lead from the root into one; if they do not, the paths are listed in order and each once. -/
theorem attempt_exact (input : Bytes) :
    (∀ segments count bytes, NodeTable.declared input = .ok (segments, count, bytes) →
      ¬ NodeTable.TablesFit count → attempt input = .brokenOff) ∧
    (NodeTable.Bounded input → ∃ o, attempt input = .answered o ∧
      (input = [] → o = .ok []) ∧
      (∀ e, o = .error e → ∃ detail, e = .malformed detail) ∧
      (∀ defect, (NodeTable.read input).bind NodeTable.paths = .error defect → defect.CanOccur) ∧
      (∀ defect, input ≠ [] → NodeTable.read input = .error defect → o = .error defect.fault) ∧
      ∀ t, NodeTable.read input = .ok t → t.edgeCount ≤ 8 * input.length ∧
        (o = .error TreeDefect.cycle.fault ↔ t.HasCycle) ∧
        (¬ t.HasCycle → ∃ paths, o = .ok paths ∧ paths.Pairwise (· < ·) ∧
          ∀ q, q ∈ paths ↔ t.IsPath q)) := by
  refine ⟨fun segments count bytes hdeclared hlarge => ?_, fun hbounded => ?_⟩
  · rw [attempt_of_declared hdeclared, if_neg hlarge]
  · have hanswer := attempt_of_fits fun segments count bytes hdeclared =>
      (hbounded segments count bytes hdeclared).tablesFit
    exact ⟨decode input, hanswer, decode_result input⟩

/-- An empty dictionary and the largest number of nodes, with nothing behind it. -/
def largestNumber : Bytes :=
  [0x78, 0xda, 0x03, 0x00, 0x00, 0x00, 0x00, 0x01, 0x88, 0xff, 0xff, 0xff, 0xff, 0xff, 0xff, 0xff,
    0xff]

/-- No answer is given for seventeen bytes that declare the largest number of nodes. -/
theorem broken_off_by_largest_number :
    NodeTable.declared largestNumber = .ok ([], 2 ^ 64 - 1, []) ∧
      attempt largestNumber = .brokenOff := by
  have hinflate : Zlib.inflate? largestNumber =
      some ([], [0x88, 0xff, 0xff, 0xff, 0xff, 0xff, 0xff, 0xff, 0xff]) := by
    decide +kernel
  have hcount : NodeTable.readNodeCount [0x88, 0xff, 0xff, 0xff, 0xff, 0xff, 0xff, 0xff, 0xff] =
      .ok (2 ^ 64 - 1, []) := by
    decide +kernel
  have hdeclared := NodeTable.declared_eq_ok.2 ⟨_, _, hinflate, rfl, hcount⟩
  exact ⟨hdeclared, by rw [attempt_of_declared hdeclared, if_neg (by decide)]⟩

end PathTree

end EntitlementAuthority
