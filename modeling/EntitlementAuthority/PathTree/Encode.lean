import EntitlementAuthority.PathTree.Shared
import EntitlementAuthority.PrefixCode.Bits
import EntitlementAuthority.PrefixCode.Trie
import EntitlementAuthority.Zlib.Store

/-!
# Writing trees of content paths

The bytes of a tree are

* a zlib stream of the segments, each with a zero byte behind it, least used first;
* the number of nodes;
* for every node its edges, each as the code of the segment and the code of the node it leads
  to, and then the code that ends a node; zero bits fill the last byte.

A segment weighs its place in the dictionary, counted from 1, and the end of a node weighs one
more than the last segment. A node weighs its place in the order of nodes, the root left out,
since nothing leads to it.

* `PathTree.encode` — the bytes of a list of paths; no paths give no bytes.
-/

namespace EntitlementAuthority

/-- The leaves of the code for segments: one for each of `count` segments and one for the end of
a node. -/
def segmentLeaves (count : Nat) : List (Nat × Nat) :=
  (List.range (count + 1)).map fun i => (i, i + 1)

/-- The leaves of the code for nodes: the places of all nodes but the root. -/
def nodeLeaves (count : Nat) : List (Nat × Nat) :=
  (List.range' 1 (count - 1)).map fun i => (i, i)

/-- The number of nodes: one byte up to 127, otherwise the number of bytes with the high bit set
and then the bytes, most significant first. -/
def nodeCountBytes (count : Nat) : Bytes :=
  if count ≤ 127 then [UInt8.ofNat count]
  else
    let significant := (Bytes.bigEndian 8 count).dropWhile (· == 0)
    UInt8.ofNat (128 + significant.length) :: significant

/-- The segments with a zero byte behind each. -/
def dictionaryBytes (segments : List String) : Bytes :=
  segments.flatMap fun s => Bytes.ofText s ++ [0]

namespace SharedTree

/-- The bits of the nodes. -/
def bits (t : SharedTree) : List Bool :=
  let segments := t.segmentOrder
  let order := t.nodeOrder
  match Trie.ofLeaves? (segmentLeaves segments.length),
    Trie.ofLeaves? (nodeLeaves order.length) with
  | some segmentTrie, some nodeTrie =>
    order.flatMap fun n =>
      ((t.children n).flatMap fun (segment, target) =>
        segmentTrie.code (segments.idxOf segment) ++ nodeTrie.code (order.idxOf target))
      ++ segmentTrie.code segments.length
  | _, _ => []

/-- The bytes of a shared tree. -/
def encode (t : SharedTree) : Bytes :=
  Zlib.deflate (dictionaryBytes t.segmentOrder) ++ nodeCountBytes t.nodeOrder.length
    ++ Bits.toBytes t.bits

end SharedTree

/-- The bytes of the tree of a list of paths. -/
def PathTree.encode (paths : List String) : Bytes :=
  match PathTree.ofPaths paths with
  | .stop => []
  | t => (SharedTree.ofTree t).encode

end EntitlementAuthority
