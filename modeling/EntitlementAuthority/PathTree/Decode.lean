import EntitlementAuthority.Fault
import EntitlementAuthority.PathTree.Encode
import EntitlementAuthority.Text.Sorted
import EntitlementAuthority.Zlib.Inflate

/-!
# Reading trees of content paths

* `TreeDefect` — why bytes are not a tree of paths.
* `NodeTable.declared` — the dictionary and the number of nodes that bytes declare.
* `NodeTable.read` — the dictionary and the nodes that bytes hold.
* `NodeTable.walks` — the paths from a node down to the ends.
* `PathTree.decode` — the paths that bytes hold, sorted and each once.
* `PathTree.attempt` — what comes of bytes when the tables for their nodes are set up first.

Every walk of a tree visits a node at most once, so a walk with more edges than there are nodes
shows a cycle.

The tables for the nodes are as large as the bytes declare, whatever stands behind the number. No
table takes more than `NodeTable.tableLimit` bytes; asking for a larger one breaks the call off.
-/

namespace EntitlementAuthority

/-- Why bytes are not a tree of content paths. -/
inductive TreeDefect where
  /-- The dictionary is not a zlib stream. -/
  | dictionaryStream
  /-- The dictionary does not end with a zero byte. -/
  | dictionaryOpen
  /-- A segment is not the UTF-8 form of text. -/
  | segmentText
  /-- Nothing stands behind the dictionary. -/
  | nodeCountMissing
  /-- The number of nodes has too many bytes, or too few are there. -/
  | nodeCountLength
  /-- A root and an end are needed. -/
  | nodeCountSmall (count : Nat)
  /-- A code has no symbols. -/
  | noSymbols
  /-- The bits end within a node. -/
  | endedMidCode
  /-- An edge leads to a node that is not there. -/
  | nodeMissing (n : Nat)
  /-- An edge has a segment that is not there. -/
  | segmentMissing (n : Nat)
  /-- The edges lead in a circle. -/
  | cycle
deriving DecidableEq, Repr

/-- The fault that a defect is reported as. -/
def TreeDefect.fault : TreeDefect → Fault
  | dictionaryStream => .malformed "segment dictionary: corrupt deflate stream"
  | dictionaryOpen => .malformed "segment dictionary is not NUL terminated"
  | segmentText => .malformed "segment is not valid UTF-8"
  | nodeCountMissing => .malformed "missing node count"
  | nodeCountLength => .malformed "invalid node count length"
  | nodeCountSmall n => .malformed ("node count " ++ toString n ++ " is too small")
  | noSymbols => .creation "cannot build an empty Huffman trie"
  | endedMidCode => .malformed "node data ended mid-code"
  | nodeMissing n => .malformed ("node " ++ toString n ++ " out of range")
  | segmentMissing n => .malformed ("segment " ++ toString n ++ " out of range")
  | cycle => .malformed "cycle in content path tree"

/-- The dictionary and the nodes of a tree that has been read. -/
structure NodeTable where
  segments : List String
  /-- The edges of every node: the places of the segment and of the node it leads to. -/
  nodes : List (List (Nat × Nat))
deriving DecidableEq, Repr

namespace NodeTable

/-! ### The dictionary and the number of nodes -/

/-- The runs of bytes in front of zero bytes, and what stands behind the last of them. -/
def splitZeros : Bytes → List Bytes × Bytes
  | [] => ([], [])
  | b :: bytes =>
    match splitZeros bytes with
    | (parts, rest) =>
      if b = 0 then ([] :: parts, rest)
      else
        match parts with
        | [] => ([], b :: rest)
        | part :: parts => ((b :: part) :: parts, rest)

/-- The segments of a dictionary. -/
def readDictionary (dictionary : Bytes) : Except TreeDefect (List String) :=
  match splitZeros dictionary with
  | (parts, []) =>
    match parts.mapM Bytes.toText? with
    | some segments => .ok segments
    | none => .error .segmentText
  | _ => .error .dictionaryOpen

/-- The number of nodes and what stands behind it. -/
def readNodeCount : Bytes → Except TreeDefect (Nat × Bytes)
  | [] => .error .nodeCountMissing
  | first :: rest =>
    if first.toNat ≤ 127 then .ok (first.toNat, rest)
    else
      -- the first byte says how many bytes the number takes
      let length := first.toNat - 128
      if 8 < length ∨ rest.length < length then .error .nodeCountLength
      else .ok (Bytes.ofBigEndian (rest.take length), rest.drop length)

/-! ### The nodes -/

/-- The edges of one node, up to the code `stop` that ends it. -/
def readEdges (zero one nodeTrie : Trie) (stop : Nat) (bits : List Bool) :
    Except TreeDefect (List (Nat × Nat) × List Bool) :=
  match _h : (Trie.node zero one).decode? bits with
  | none => .error .endedMidCode
  | some (segment, bits') =>
    if segment = stop then .ok ([], bits')
    else
      match _hn : nodeTrie.decode? bits' with
      | none => .error .endedMidCode
      | some (target, bits'') =>
        match readEdges zero one nodeTrie stop bits'' with
        | .error e => .error e
        | .ok (edges, rest) => .ok ((segment, target) :: edges, rest)
termination_by bits.length
decreasing_by
  exact Nat.lt_of_le_of_lt (Trie.length_le_of_decode? _hn) (Trie.length_of_decode? _h)

/-- One node. A code of a single symbol takes no bits, and its symbol ends every node. -/
def readNode (segmentTrie nodeTrie : Trie) (stop : Nat) (bits : List Bool) :
    Except TreeDefect (List (Nat × Nat) × List Bool) :=
  match segmentTrie with
  | .leaf _ => .ok ([], bits)
  | .node zero one => readEdges zero one nodeTrie stop bits

/-- As many nodes as are wanted. -/
def readNodes (segmentTrie nodeTrie : Trie) (stop : Nat) :
    Nat → List Bool → Except TreeDefect (List (List (Nat × Nat)))
  | 0, _ => .ok []
  | count + 1, bits =>
    match readNode segmentTrie nodeTrie stop bits with
    | .error e => .error e
    | .ok (edges, bits) =>
      match readNodes segmentTrie nodeTrie stop count bits with
      | .error e => .error e
      | .ok nodes => .ok (edges :: nodes)

/-- The nodes behind a dictionary, if the tables for as many as are declared can be kept. -/
def readBody (segments : List String) (body : Bytes) : Except TreeDefect NodeTable :=
  match readNodeCount body with
  | .error e => .error e
  | .ok (count, bytes) =>
    -- even a tree without paths has a root and an end
    if count < 2 then .error (.nodeCountSmall count)
    else
      match Trie.ofLeaves? (segmentLeaves segments.length),
        Trie.ofLeaves? (nodeLeaves count) with
      | some segmentTrie, some nodeTrie =>
        match readNodes segmentTrie nodeTrie segments.length count (Bits.ofBytes bytes) with
        | .error e => .error e
        | .ok nodes => .ok ⟨segments, nodes⟩
      | _, _ => .error .noSymbols

/-- The dictionary and the nodes that bytes hold. -/
def read (input : Bytes) : Except TreeDefect NodeTable :=
  match Zlib.inflate? input with
  | none => .error .dictionaryStream
  | some (dictionary, body) =>
    match readDictionary dictionary with
    | .error e => .error e
    | .ok segments => readBody segments body

/-! ### The paths -/

/-- The paths from a node down to the ends, behind the path that leads to the node; `budget` is
one more than the number of edges that a walk may still have. -/
def walks (t : NodeTable) : (budget n : Nat) → (path : String) → Except TreeDefect (List String)
  | 0, _, _ => .error .cycle
  | budget + 1, n, path =>
    match t.nodes[n]? with
    | none => .error (.nodeMissing n)
    -- a node without edges ends a path, and a root without edges ends none
    | some [] => .ok (if path.isEmpty then [] else [path])
    | some edges => do
      let found ← edges.mapM fun (segment, target) =>
        match t.segments[segment]? with
        | none => .error (.segmentMissing segment)
        | some name => t.walks budget target (path ++ "/" ++ name)
      .ok found.flatten

/-- The paths of the whole table. -/
def paths (t : NodeTable) : Except TreeDefect (List String) :=
  t.walks (t.nodes.length + 1) 0 ""

end NodeTable

/-- The paths that bytes hold, sorted and each once; no bytes hold no paths. It is taken for granted
that the tables for the nodes can be kept. -/
def PathTree.decode (input : Bytes) : Outcome (List String) :=
  if input.isEmpty then .ok []
  else
    match (NodeTable.read input).bind NodeTable.paths with
    | .ok paths => .ok (Text.sortedSet paths)
    | .error e => .error e.fault

/-! ### The tables for the nodes -/

namespace NodeTable

/-- The segments, the number of nodes that bytes declare, and what stands behind it. -/
def declared (input : Bytes) : Except TreeDefect (List String × Nat × Bytes) :=
  match Zlib.inflate? input with
  | none => .error .dictionaryStream
  | some (dictionary, body) =>
    match readDictionary dictionary with
    | .error e => .error e
    | .ok segments => (readNodeCount body).map fun (count, bytes) => (segments, count, bytes)

/-- The most bytes that a table takes, the largest machine word with a sign. -/
def tableLimit : Nat :=
  9223372036854775807

/-- The tables for a number of nodes can be set up. The largest of them is that of their code, with
two entries of 48 bytes for every node but the root. -/
def TablesFit (count : Nat) : Prop :=
  2 * 48 * (count - 1) ≤ tableLimit

instance (count : Nat) : Decidable (TablesFit count) :=
  inferInstanceAs (Decidable (_ ≤ _))

end NodeTable

/-- How a call ends that sets up tables. -/
inductive PathTree.Ending where
  | answered (o : Outcome (List String))
  /-- A table was asked for that cannot be set up. -/
  | brokenOff

/-- What comes of bytes. The tables are set up before any node is read. -/
def PathTree.attempt (input : Bytes) : PathTree.Ending :=
  match NodeTable.declared input with
  | .error _ => .answered (decode input)
  | .ok (_, count, _) => if NodeTable.TablesFit count then .answered (decode input) else .brokenOff

end EntitlementAuthority
