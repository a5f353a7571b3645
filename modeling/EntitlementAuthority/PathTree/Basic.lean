import EntitlementAuthority.Text.Fields

/-!
# Trees of content paths

The paths of a certificate share most of their segments, so they are kept as a tree with a
segment on every edge. Every path ends at the same kind of node, one without edges; a segment
that ends one path and begins a longer one has two edges.

* `PathTree` — a node, given by its edges.
* `PathTree.ofPaths` — the tree of a list of paths.
* `PathTree.sequences` — the sequences of segments from a node to an end.
-/

namespace EntitlementAuthority

/-- A node of a tree of paths, given by its edges in the order in which they were added. -/
inductive PathTree where
  /-- No edges: the end of a path, or a tree without paths. -/
  | stop
  /-- An edge with a segment to the node `below`, and the further edges of the node. -/
  | edge (segment : String) (below next : PathTree)
deriving DecidableEq, Repr

/-- Segments with a slash in front of each. -/
def joinSegments (segments : List String) : String :=
  segments.foldl (fun path segment => path ++ "/" ++ segment) ""

namespace PathTree

/-- Whether a node has no edges. -/
def isStop : PathTree → Bool
  | stop => true
  | edge .. => false

/-- Changes the node below the first edge with the given segment that leads, as wanted, to an
end or to an inner node; without such an edge, adds one. -/
def alter (segment : String) (toStop : Bool) (f : PathTree → PathTree) : PathTree → PathTree
  | stop => edge segment (f stop) stop
  | edge s below next =>
    if s = segment ∧ below.isStop = toStop then edge s (f below) next
    else edge s below (alter segment toStop f next)

/-- Adds a sequence of segments. -/
def insert : List String → PathTree → PathTree
  | [], t => t
  | s :: segments, t => alter s segments.isEmpty (insert segments) t

/-- The tree of a list of paths; a path without segments adds nothing. -/
def ofPaths (paths : List String) : PathTree :=
  paths.foldl (fun t path => insert (Text.pathSegments path) t) stop

/-- The sequences of segments along the edges of a node down to an end. -/
def sequences : PathTree → List (List String)
  | stop => []
  | edge s below next =>
    (if below.isStop then [[s]] else below.sequences.map (s :: ·)) ++ next.sequences

end PathTree

end EntitlementAuthority
