import EntitlementAuthority.PathTree.Basic
import EntitlementAuthority.Text.Sorted

/-!
# Shared trees

Nodes with the same edges to the same nodes are kept once. The nodes of a shared tree are
numbered in the order in which they are first met, children before their parents.

* `SharedTree.ofTree` — the shared form of a tree of paths.
* `SharedTree.segmentOrder` — the segments, least used first.
* `SharedTree.nodeOrder` — the nodes, the root first and then those with fewest parents.
-/

namespace EntitlementAuthority

/-- The edges of a node, sorted: segments and the numbers of the nodes they lead to. -/
abbrev Edges := List (String × Nat)

/-- A numbered list of nodes, and the number of the root. -/
structure SharedTree where
  nodes : List Edges
  root : Nat

namespace SharedTree

/-- Edges are sorted by segment and then by node. -/
def edgeLe (a b : String × Nat) : Bool :=
  a.1 < b.1 || (a.1 == b.1 && a.2 ≤ b.2)

/-- The number of the node with the given edges, which is added if it is new. -/
def share (edges : Edges) (nodes : List Edges) : Nat × List Edges :=
  let edges := edges.mergeSort edgeLe
  match nodes.idxOf? edges with
  | some n => (n, nodes)
  | none => (nodes.length, nodes ++ [edges])

/-- The edges of a node, after all nodes below it have got their numbers. -/
def shareBelow : PathTree → List Edges → Edges × List Edges
  | .stop, nodes => ([], nodes)
  | .edge segment below next, nodes =>
    let (edges, nodes) := shareBelow below nodes
    let (n, nodes) := share edges nodes
    let (rest, nodes) := shareBelow next nodes
    ((segment, n) :: rest, nodes)

/-- The shared form of a tree. -/
def ofTree (t : PathTree) : SharedTree :=
  let (edges, nodes) := shareBelow t []
  let (root, nodes) := share edges nodes
  ⟨nodes, root⟩

/-- The edges of a node; a number that no node has stands for a node without edges. -/
def children (t : SharedTree) (n : Nat) : Edges :=
  t.nodes.getD n []

/-- Runs of equal neighbours: how often each text occurs in a sorted list. -/
def runs : List String → List (Nat × String)
  | [] => []
  | s :: texts =>
    match runs texts with
    | [] => [(1, s)]
    | (n, t) :: rest => if s = t then (n + 1, t) :: rest else (1, s) :: (n, t) :: rest

/-- The segments, those on fewest edges first, and then in the order of text. -/
def segmentOrder (t : SharedTree) : List String :=
  let segments := (t.nodes.flatMap fun edges => edges.map Prod.fst).mergeSort (· ≤ ·)
  ((runs segments).mergeSort fun a b => a.1 ≤ b.1).map Prod.snd

/-- How many nodes have an edge to a node. -/
def parentCount (t : SharedTree) (n : Nat) : Nat :=
  t.nodes.countP fun edges => edges.any (·.2 == n)

/-- The root, then the other nodes, those with fewest parents first, and then by number. A lone
root and end get a third node that nothing leads to, so that the code of nodes has two
symbols. -/
def nodeOrder (t : SharedTree) : List Nat :=
  let others := (List.range t.nodes.length).filter (· != t.root)
  let counted := others.map fun n => (t.parentCount n, n)
  let sorted := (counted.mergeSort fun a b => a.1 ≤ b.1).map Prod.snd
  let order := t.root :: sorted
  if order.length = 2 then order ++ [t.nodes.length] else order

end SharedTree

end EntitlementAuthority
