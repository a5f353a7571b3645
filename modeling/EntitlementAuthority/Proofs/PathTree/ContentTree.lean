import EntitlementAuthority.Body.Assembly
import EntitlementAuthority.Extension.Compact
import EntitlementAuthority.Proofs.Outcomes
import EntitlementAuthority.Proofs.Promotion.ContentPath

/-!
# The content tree of a compact certificate

A compact certificate lists its content paths in a tree. The tree keeps segments, so it can list a
path only if a slash in front of each segment is all that the path has besides.

* `PathTree.zero_notMem_decode` — no path that is read holds a zero character.
* `contentTree?` — the tree in a certificate.
* `decode_contentTree_iff` — the tree lists the paths of its body exactly if no URL names its server
  and no path is without segments.
-/

namespace EntitlementAuthority

/-! ### Zero characters are not read -/

namespace Bytes

variable {bytes : Bytes} {s : String}

theorem ofText_of_toText? (h : toText? bytes = some s) : ofText s = bytes := by
  unfold toText? String.fromUTF8? at h
  split at h
  · rename_i hvalid
    obtain rfl := Option.some.inj h
    have hencoded : (String.fromUTF8 ⟨bytes.toArray⟩ hvalid).toByteArray = ⟨bytes.toArray⟩ := rfl
    rw [← String.utf8Encode_toList, List.utf8Encode] at hencoded
    have hdata := congrArg ByteArray.data hencoded
    rw [List.data_toByteArray] at hdata
    exact List.toArray_inj hdata
  · cases h

theorem zero_mem_ofText (h : '\u0000' ∈ s.toList) : 0 ∈ ofText s :=
  List.mem_flatMap.2 ⟨'\u0000', h, by decide⟩

end Bytes

namespace NodeTable

variable {t : NodeTable} {input dictionary body : Bytes} {segments found : List String}

/-- No part between zero bytes has a zero byte. -/
theorem zero_notMem_splitZeros {part : Bytes} (h : part ∈ (splitZeros input).1) : 0 ∉ part := by
  induction input generalizing part with
  | nil => cases h
  | cons b bytes ih =>
    rw [splitZeros] at h
    rcases hs : splitZeros bytes with ⟨parts, rest⟩
    rw [hs] at h ih
    dsimp only at h
    split at h
    · rcases List.mem_cons.1 h with rfl | h
      · exact List.not_mem_nil
      · exact ih h
    · rename_i hb
      cases parts with
      | nil => cases h
      | cons first parts =>
        rcases List.mem_cons.1 h with rfl | h
        · rw [List.mem_cons, not_or]
          exact ⟨Ne.symm hb, ih List.mem_cons_self⟩
        · exact ih (List.mem_cons_of_mem first h)

theorem mem_of_mapM_toText? {parts : List Bytes} (h : parts.mapM Bytes.toText? = some segments) :
    ∀ s ∈ segments, ∃ part ∈ parts, Bytes.toText? part = some s := by
  induction parts generalizing segments with
  | nil =>
    cases h
    exact nofun
  | cons part parts ih =>
    rw [List.mapM_cons] at h
    obtain ⟨first, hfirst, h⟩ := Option.bind_eq_some_iff.1 h
    obtain ⟨rest, hrest, h⟩ := Option.bind_eq_some_iff.1 h
    cases h
    intro s hs
    rcases List.mem_cons.1 hs with rfl | hs
    · exact ⟨part, List.mem_cons_self, hfirst⟩
    · obtain ⟨part', hpart', htext⟩ := ih hrest s hs
      exact ⟨part', List.mem_cons_of_mem part hpart', htext⟩

theorem zero_notMem_readDictionary (h : readDictionary dictionary = .ok segments) :
    ∀ s ∈ segments, '\u0000' ∉ s.toList := by
  unfold readDictionary at h
  split at h
  · rename_i parts hparts
    split at h
    · rename_i texts htexts
      cases h
      intro s hs hzero
      obtain ⟨part, hpart, htext⟩ := mem_of_mapM_toText? htexts s hs
      have hsplit : part ∈ (splitZeros dictionary).1 := by
        rw [hparts]
        exact hpart
      apply zero_notMem_splitZeros hsplit
      rw [← Bytes.ofText_of_toText? htext]
      exact Bytes.zero_mem_ofText hzero
    · cases h
  · cases h

theorem segments_readBody (h : readBody segments body = .ok t) : t.segments = segments := by
  unfold readBody at h
  split at h
  · cases h
  · split at h
    · cases h
    · split at h
      · split at h
        · cases h
        · cases h
          rfl
      · cases h

/-- No segment that is read holds a zero character. -/
theorem zero_notMem_read (h : read input = .ok t) : ∀ s ∈ t.segments, '\u0000' ∉ s.toList := by
  unfold read at h
  split at h
  · cases h
  · split at h
    · cases h
    · rename_i hdictionary
      rw [segments_readBody h]
      exact zero_notMem_readDictionary hdictionary

/-- A walk adds nothing but slashes and segments to its path. -/
theorem zero_notMem_walks (hsegments : ∀ s ∈ t.segments, '\u0000' ∉ s.toList) {budget n : Nat}
    {path : String} (hpath : '\u0000' ∉ path.toList) (h : t.walks budget n path = .ok found) :
    ∀ q ∈ found, '\u0000' ∉ q.toList := by
  induction budget generalizing n path found with
  | zero => cases h
  | succ budget ih =>
    unfold walks at h
    split at h
    · cases h
    · cases h
      intro q hq
      split at hq
      · cases hq
      · rw [List.mem_singleton.1 hq]
        exact hpath
    · obtain ⟨founds, hfounds, h⟩ := except_bind_eq_ok.1 h
      cases h
      intro q hq
      obtain ⟨below, hbelow, hq⟩ := List.mem_flatten.1 hq
      obtain ⟨e, -, he⟩ := (mem_of_mapM_eq_ok hfounds).1 hbelow
      dsimp only at he
      split at he
      · cases he
      · rename_i name hname
        refine ih ?_ he q hq
        have hclean := hsegments name (List.mem_of_getElem? hname)
        simp only [String.toList_append, List.mem_append, not_or]
        exact ⟨⟨hpath, by decide⟩, hclean⟩

end NodeTable

namespace PathTree

/-- **No path that is read holds a zero character.** -/
theorem zero_notMem_decode {input : Bytes} {found : List String} (h : decode input = .ok found) :
    ∀ q ∈ found, '\u0000' ∉ q.toList := by
  unfold decode at h
  split at h
  · cases h
    exact nofun
  · cases hread : NodeTable.read input with
    | error e =>
      rw [hread] at h
      cases h
    | ok t =>
      rw [hread] at h
      have hbind : (Except.ok t).bind NodeTable.paths = t.paths := rfl
      rw [hbind] at h
      cases hpaths : t.paths with
      | error e =>
        rw [hpaths] at h
        cases h
      | ok paths =>
        rw [hpaths] at h
        cases h
        intro q hq
        refine NodeTable.zero_notMem_walks (NodeTable.zero_notMem_read hread) ?_ hpaths q
          (Text.mem_sortedSet.1 hq)
        exact List.not_mem_nil

end PathTree

/-- A path that some template gives to some URL in some environment. -/
def IsBuiltPath (path : String) : Prop :=
  ∃ (t : PathTemplate) (environment : Option Environment) (url : String),
    path = t.build environment url

theorem PathTemplate.zero_notMem_build {url : String} (h : isAbsolute url = false) (t : PathTemplate)
    (environment : Option Environment) : '\u0000' ∉ (t.build environment url).toList := by
  intro hzero
  rcases mem_build h hzero with h | h | h
  · exact absurd h (by decide)
  · exact absurd h (by decide)
  · exact absurd h (by decide)

/-- Built paths that name no server hold no zero character. -/
theorem IsBuiltPath.zero_notMem {path : String} (h : IsBuiltPath path)
    (hrelative : PathTemplate.isAbsolute path = false) : '\u0000' ∉ path.toList := by
  obtain ⟨t, environment, url, rfl⟩ := h
  refine PathTemplate.zero_notMem_build (Bool.eq_false_iff.2 fun habsolute => ?_) t environment
  rw [PathTemplate.build_of_absolute habsolute, habsolute] at hrelative
  cases hrelative

theorem IsBuiltPath.isNormalPath_iff {path : String} (h : IsBuiltPath path) :
    IsNormalPath path ↔ PathTemplate.isAbsolute path = false ∧ path ≠ "/" := by
  obtain ⟨t, environment, url, rfl⟩ := h
  exact PathTemplate.isNormalPath_build_iff

/-! ### Certificates -/

/-- The bytes of the tree among the extensions of a certificate. -/
def contentTree? (extensions : List Extension) : Option Bytes :=
  (extensions.find? fun e => e.oid = Oid.contentTree).bind fun e =>
    match e.value with
    | .bytes tree => some tree
    | .text _ => none

section Certificates

variable {deflate : Bytes → Bytes} {b : EntitlementBody} (level : EntitlementLevel)
  (version : String) (productNamespace : Option String)

/-- With stored blocks, the extensions are those of `compactExtensions`. -/
theorem compactExtensionsWith_deflate :
    compactExtensionsWith Zlib.deflate b level version productNamespace =
      .ok (compactExtensions b level version productNamespace) := by
  unfold compactExtensionsWith
  rw [PathTree.encodeWith_deflate]
  rfl

theorem contentTree?_extensionsWithTree (tree : Bytes) :
    contentTree? (extensionsWithTree level version productNamespace tree) = some tree := by
  unfold extensionsWithTree
  cases Text.nonBlank? productNamespace <;> rfl

/-- The extensions are always made, and hold the tree of the content paths. -/
theorem exists_contentTree (deflate : Bytes → Bytes) (b : EntitlementBody) :
    ∃ extensions tree, compactExtensionsWith deflate b level version productNamespace =
        .ok extensions ∧ contentTree? extensions = some tree ∧
      PathTree.encodeWith deflate b.contentPaths = .ok tree := by
  obtain ⟨tree, htree⟩ := PathTree.exists_encodeWith deflate b.contentPaths
  refine ⟨extensionsWithTree level version productNamespace tree, tree, ?_, ?_, htree⟩
  · unfold compactExtensionsWith
    rw [htree]
    rfl
  · exact contentTree?_extensionsWithTree level version productNamespace tree

/-- **The content tree lists the content paths** of the body exactly if none of them names its
server and none is without segments. -/
theorem decode_contentTree_iff (hdeflate : Zlib.IsCompressor deflate)
    (hbuilt : ∀ path ∈ b.contentPaths, IsBuiltPath path)
    (hcount : PathTree.nodeCount b.contentPaths < 2 ^ 64) :
    ∃ extensions tree, compactExtensionsWith deflate b level version productNamespace =
        .ok extensions ∧ contentTree? extensions = some tree ∧
      (PathTree.decode tree = .ok (Text.sortedSet b.contentPaths) ↔
        ∀ path ∈ b.contentPaths, PathTemplate.isAbsolute path = false ∧ path ≠ "/") := by
  obtain ⟨extensions, tree, hextensions, htree, hencoded⟩ :=
    exists_contentTree level version productNamespace deflate b
  refine ⟨extensions, tree, hextensions, htree, ?_⟩
  by_cases hzero : ∀ path ∈ b.contentPaths, '\u0000' ∉ path.toList
  · rw [PathTree.decode_of_encodeWith hdeflate hzero hcount hencoded, Except.ok.injEq,
      PathTree.sortedSet_normalPaths_eq_iff]
    exact forall₂_congr fun path hpath => (hbuilt path hpath).isNormalPath_iff
  · -- a path with a zero character names its server, and is not read back
    push Not at hzero
    obtain ⟨path, hpath, hmem⟩ := hzero
    refine iff_of_false ?_ ?_
    · intro hdecode
      exact PathTree.zero_notMem_decode hdecode path (Text.mem_sortedSet.2 hpath) hmem
    · intro hall
      exact (hbuilt path hpath).zero_notMem (hall path hpath).1 hmem

end Certificates

/-! ### A content on another server -/

namespace ListedContent

/-- A body with one content. -/
def body (path : String) : EntitlementBody :=
  .contentOnly "" [.plain "100" "Sample OS" [contentModel default path true []]]

theorem nodeCount_body {path : String} (h : (Text.pathSegments path).length ≤ 8) :
    PathTree.nodeCount (body path).contentPaths < 2 ^ 64 := by
  have hcount := PathTree.nodeCount_le (body path).contentPaths
  have hsegments : ((body path).contentPaths.map fun p => (Text.pathSegments p).length).sum =
      (Text.pathSegments path).length := Nat.add_zero _
  omega

/-- A URL that names its server. -/
def absoluteUrl : String := "https://cdn.example.com/os"

/-- A content of the owner's own server is listed. -/
theorem decode_contentTree_of_relative : ∃ extensions tree,
    compactExtensionsWith Zlib.deflate (body "/content/os") .basic "3.4" none = .ok extensions ∧
      contentTree? extensions = some tree ∧ PathTree.decode tree = .ok ["/content/os"] := by
  have hbuilt : ∀ path ∈ (body "/content/os").contentPaths, IsBuiltPath path := by
    intro path hpath
    rw [List.mem_singleton.1 hpath]
    exact ⟨.ofText none, none, "content/os", by decide⟩
  obtain ⟨extensions, tree, hextensions, htree, hiff⟩ :=
    decode_contentTree_iff .basic "3.4" none Zlib.isCompressor_deflate hbuilt
      (nodeCount_body (by decide))
  exact ⟨extensions, tree, hextensions, htree, hiff.2 (by decide)⟩

/-- A URL that names its server is built as it is, but the tree lists something else. -/
theorem absolute_url_is_not_listed : ∃ extensions tree,
    IsBuiltPath absoluteUrl ∧ (body absoluteUrl).contentPaths = [absoluteUrl] ∧
      compactExtensionsWith Zlib.deflate (body absoluteUrl) .basic "3.4" none = .ok extensions ∧
      contentTree? extensions = some tree ∧
      PathTree.decode tree = .ok ["/https:/cdn.example.com/os"] ∧
      PathTree.decode tree ≠ .ok (Text.sortedSet (body absoluteUrl).contentPaths) := by
  obtain ⟨extensions, tree, hextensions, htree, hencoded⟩ :=
    exists_contentTree .basic "3.4" none Zlib.deflate (body absoluteUrl)
  have hdecode := PathTree.decode_of_encodeWith Zlib.isCompressor_deflate (by decide)
    (nodeCount_body (by decide)) hencoded
  have hnormal : Text.sortedSet (PathTree.normalPaths (body absoluteUrl).contentPaths) =
      ["/https:/cdn.example.com/os"] := by decide
  rw [hnormal] at hdecode
  refine ⟨extensions, tree, ⟨.ofText none, none, absoluteUrl, by decide⟩, by decide, hextensions,
    htree, hdecode, ?_⟩
  rw [hdecode]
  intro h
  exact absurd (Except.ok.inj h) (by decide)

end ListedContent

end EntitlementAuthority
