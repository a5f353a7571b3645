import EntitlementAuthority.PathTree.Decode
import EntitlementAuthority.PathTree.Encode

/-!
# Writing trees of content paths, code by code

`PathTree.encode` takes the codes from the tries. Here every code is looked up, and nothing is
written if one is missing; the dictionary is compressed in some way.

* `SharedTree.lookUpBits` — the bits of the nodes.
* `PathTree.encodeWith` — the bytes of a list of paths.
-/

namespace EntitlementAuthority

/-- The code of a symbol; it is a fault if there is none. -/
def Trie.lookUp (t : Trie) (symbol : Option Nat) : Outcome (List Bool) :=
  match symbol.bind fun n => t.codes.lookup n with
  | some bits => .ok bits
  | none => .error (.creation "content path symbol missing from Huffman trie")

/-- The trie for weighted symbols; it is a fault if there are no symbols. -/
def Trie.build (leaves : List (Nat × Nat)) : Outcome Trie :=
  match ofLeaves? leaves with
  | some t => .ok t
  | none => .error TreeDefect.noSymbols.fault

namespace SharedTree

/-- The bits of an edge, where both codes are looked up. -/
def lookUpEdge (t : SharedTree) (segmentTrie nodeTrie : Trie) (e : String × Nat) :
    Outcome (List Bool) := do
  let segmentCode ← segmentTrie.lookUp (t.segmentOrder.idxOf? e.1)
  let nodeCode ← nodeTrie.lookUp (t.nodeOrder.idxOf? e.2)
  .ok (segmentCode ++ nodeCode)

/-- The bits of a node: its edges, and the code that ends it. -/
def lookUpNode (t : SharedTree) (segmentTrie nodeTrie : Trie) (n : Nat) : Outcome (List Bool) := do
  let edges ← (t.children n).mapM (t.lookUpEdge segmentTrie nodeTrie)
  let stopCode ← segmentTrie.lookUp (some t.segmentOrder.length)
  .ok (edges.flatten ++ stopCode)

/-- The bits of the nodes, where every code is looked up. -/
def lookUpBits (t : SharedTree) : Outcome (List Bool) := do
  let segmentTrie ← Trie.build (segmentLeaves t.segmentOrder.length)
  let nodeTrie ← Trie.build (nodeLeaves t.nodeOrder.length)
  let nodes ← t.nodeOrder.mapM (t.lookUpNode segmentTrie nodeTrie)
  .ok nodes.flatten

end SharedTree

/-- The bytes of the tree of a list of paths, where every code is looked up and the dictionary is
compressed in some way. -/
def PathTree.encodeWith (deflate : Bytes → Bytes) (paths : List String) : Outcome Bytes :=
  match PathTree.ofPaths paths with
  | .stop => .ok []
  | t => do
    let shared := SharedTree.ofTree t
    let bits ← shared.lookUpBits
    .ok (deflate (dictionaryBytes shared.segmentOrder) ++ nodeCountBytes shared.nodeOrder.length
      ++ Bits.toBytes bits)

end EntitlementAuthority
