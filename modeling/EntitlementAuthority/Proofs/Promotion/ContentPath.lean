import EntitlementAuthority.Promotion.ContentPath
import EntitlementAuthority.Proofs.PathTree.Roundtrip
import EntitlementAuthority.Proofs.Text.Separated

/-!
# Built paths and their segments

A path is in normal form if it has a slash in front of each segment and no other slashes. The path
of a URL that does not name its server is in normal form as soon as it has a segment; a URL that
names its server never is.

* `Text.splitOnChar_append_sep` — cutting at one occurrence of the separator.
* `IsNormalPath` — paths in normal form; `mem_normalPaths_iff` says which of them a list has.
* `PathTemplate.mem_build` — the characters of a built path.
* `PathTemplate.isNormalPath_build_iff` — which built paths are in normal form.
-/

namespace EntitlementAuthority

namespace Text

/-! ### Segments -/

/-- Fields in front of a separator and behind it are cut apart independently. -/
theorem splitOnChar_append_sep (sep : Char) (before after : List Char) :
    splitOnChar sep (before ++ sep :: after) = splitOnChar sep before ++ splitOnChar sep after := by
  induction before with
  | nil => simp [splitOnChar]
  | cons c cs ih =>
    rw [List.cons_append, splitOnChar, splitOnChar, ih]
    split
    · rfl
    · cases hs : splitOnChar sep cs with
      | nil => exact absurd hs (splitOnChar_ne_nil sep cs)
      | cons field fields => rfl

/-- A text that can stand between two slashes. -/
def IsSegment (s : String) : Prop :=
  s ≠ "" ∧ '/' ∉ s.toList

theorem isSegment_of_mem_pathSegments {path s : String} (h : s ∈ pathSegments path) :
    IsSegment s := by
  obtain ⟨hmem, hne⟩ := List.mem_filter.1 h
  obtain ⟨field, hfield, rfl⟩ := List.mem_map.1 hmem
  refine ⟨by simpa using hne, ?_⟩
  rw [String.toList_ofList]
  exact sep_notMem_of_mem_splitOnChar hfield

/-! ### Encoded segments -/

theorem isPlain_upperHexDigit {n : Nat} (h : n < 16) : isPlain (upperHexDigit n) = true := by
  revert n
  decide

theorem mem_encodeSegment {s : String} {c : Char} (h : c ∈ (encodeSegment s).toList) :
    c = '%' ∨ isPlain c = true := by
  rw [encodeSegment, String.toList_ofList] at h
  obtain ⟨d, -, h⟩ := List.mem_flatMap.1 h
  unfold encodeChar at h
  split at h
  · rename_i hd
    rw [List.mem_singleton.1 h]
    exact .inr hd
  · obtain ⟨b, -, h⟩ := List.mem_flatMap.1 h
    have hb : b.toNat < 256 := UInt8.toNat_lt b
    simp only [percentByte, List.mem_cons, List.not_mem_nil, or_false] at h
    rcases h with rfl | rfl | rfl
    · exact .inl rfl
    · exact .inr (isPlain_upperHexDigit (by omega))
    · exact .inr (isPlain_upperHexDigit (by omega))

theorem encodeChar_ne_nil (c : Char) : encodeChar c ≠ [] := by
  unfold encodeChar
  split
  · exact List.cons_ne_nil _ _
  · intro h
    have hnone := List.flatMap_eq_nil_iff.1 h
    cases hbytes : String.utf8EncodeChar c with
    | nil =>
      have hsize := String.length_utf8EncodeChar c
      rw [hbytes, List.length_nil] at hsize
      exact absurd hsize.symm (Nat.ne_of_gt c.utf8Size_pos)
    | cons b bytes =>
      have hb := hnone b (hbytes ▸ List.mem_cons_self)
      cases hb

theorem isSegment_encodeSegment {s : String} (h : s ≠ "") : IsSegment (encodeSegment s) := by
  refine ⟨?_, ?_⟩
  · rw [encodeSegment, ← String.toList_inj.ne, String.toList_ofList]
    intro hnil
    obtain ⟨c, cs, hcs⟩ := List.exists_cons_of_ne_nil (String.toList_inj.ne.2 h)
    rw [hcs, List.flatMap_cons] at hnil
    exact encodeChar_ne_nil c (List.append_eq_nil_iff.1 hnil).1
  · intro hslash
    rcases mem_encodeSegment hslash with h | h
    · exact absurd h (by decide)
    · exact absurd h (by decide)

end Text

open Text

/-! ### Normal form -/

/-- A path in normal form: a slash in front of each segment, and at least one segment. -/
def IsNormalPath (path : String) : Prop :=
  pathSegments path ≠ [] ∧ joinSegments (pathSegments path) = path

instance (path : String) : Decidable (IsNormalPath path) :=
  inferInstanceAs (Decidable (_ ∧ _))

variable {segments : List String} {path : String}

theorem joinSegments_toList (segments : List String) :
    (joinSegments segments).toList = segments.flatMap fun s => '/' :: s.toList := by
  induction segments with
  | nil => rfl
  | cons s segments ih =>
    rw [← String.empty_append (s := joinSegments (s :: segments)),
      NodeTable.append_joinSegments_cons]
    simp [ih]

/-- Segments are found again between their slashes. -/
theorem splitOnChar_joinSegments (h : ∀ s ∈ segments, '/' ∉ s.toList) :
    splitOnChar '/' (joinSegments segments).toList = [] :: segments.map String.toList := by
  suffices hfront : ∀ cs, '/' ∉ cs →
      splitOnChar '/' (cs ++ segments.flatMap fun s => '/' :: s.toList) =
        cs :: segments.map String.toList by
    rw [joinSegments_toList]
    exact hfront [] List.not_mem_nil
  induction segments with
  | nil =>
    intro cs hcs
    rw [List.flatMap_nil, List.append_nil, splitOnChar_of_notMem hcs, List.map_nil]
  | cons s segments ih =>
    intro cs hcs
    have hs := ih (fun s' hs' => h s' (List.mem_cons_of_mem s hs')) s.toList
      (h s List.mem_cons_self)
    rw [List.flatMap_cons, List.cons_append, splitOnChar_append hcs, hs, List.map_cons]

theorem pathSegments_joinSegments (h : ∀ s ∈ segments, IsSegment s) :
    pathSegments (joinSegments segments) = segments := by
  unfold pathSegments
  rw [splitOnChar_joinSegments fun s hs => (h s hs).2, List.map_cons, List.map_map]
  have hsame : segments.map (String.ofList ∘ String.toList) = segments :=
    (List.map_congr_left fun s _ => String.ofList_toList).trans (List.map_id _)
  rw [hsame, List.filter_cons_of_neg (by simp)]
  refine List.filter_eq_self.2 fun s hs => ?_
  simpa using (h s hs).1

theorem isNormalPath_joinSegments (hne : segments ≠ []) (h : ∀ s ∈ segments, IsSegment s) :
    IsNormalPath (joinSegments segments) := by
  unfold IsNormalPath
  rw [pathSegments_joinSegments h]
  exact ⟨hne, rfl⟩

/-- A path that is in normal form holds no two slashes in a row. -/
theorem IsNormalPath.isAbsolute_eq_false (h : IsNormalPath path) :
    PathTemplate.isAbsolute path = false := by
  refine Bool.eq_false_iff.2 fun habsolute => ?_
  obtain ⟨before, after, hpath⟩ := containsText_iff.1 habsolute
  have hsegments : ∀ s ∈ pathSegments path, '/' ∉ s.toList :=
    fun s hs => (isSegment_of_mem_pathSegments hs).2
  have hsplit := splitOnChar_joinSegments hsegments
  have hcut : splitOnChar '/' path.toList =
      splitOnChar '/' (before ++ [':']) ++ [] :: splitOnChar '/' after := by
    have hslashes : path.toList = (before ++ [':']) ++ '/' :: '/' :: after := by
      rw [← hpath]
      simp
    rw [hslashes, splitOnChar_append_sep, splitOnChar, if_pos rfl]
  rw [h.2, hcut] at hsplit
  obtain ⟨first, fields, hfirst⟩ :=
    List.exists_cons_of_ne_nil (splitOnChar_ne_nil '/' (before ++ [':']))
  -- the empty field between the two slashes would be a segment
  rw [hfirst, List.cons_append, List.cons.injEq] at hsplit
  have hempty : [] ∈ (pathSegments path).map String.toList := by
    rw [← hsplit.2]
    exact List.mem_append_right fields List.mem_cons_self
  obtain ⟨s, hs, hnil⟩ := List.mem_map.1 hempty
  exact (isSegment_of_mem_pathSegments hs).1 (String.toList_inj.1 hnil)

/-- The normal forms of some paths are these paths exactly if all are in normal form. -/
theorem PathTree.sortedSet_normalPaths_eq_iff {paths : List String} :
    sortedSet (normalPaths paths) = sortedSet paths ↔ ∀ path ∈ paths, IsNormalPath path := by
  have hmem : ∀ q, q ∈ normalPaths paths ↔
      ∃ path ∈ paths, pathSegments path ≠ [] ∧ joinSegments (pathSegments path) = q := by
    intro q
    simp [normalPaths, and_assoc]
  constructor
  · intro h path hpath
    have hnormal : path ∈ normalPaths paths := by
      rw [← mem_sortedSet, h, mem_sortedSet]
      exact hpath
    obtain ⟨path', -, hne, rfl⟩ := (hmem path).1 hnormal
    exact isNormalPath_joinSegments hne fun s hs => isSegment_of_mem_pathSegments hs
  · intro h
    refine sortedSet_congr fun q => ?_
    rw [hmem]
    constructor
    · rintro ⟨path, hpath, -, rfl⟩
      rw [(h path hpath).2]
      exact hpath
    · intro hq
      exact ⟨q, hq, h q hq⟩

/-! ### Built paths -/

namespace PathTemplate

variable {t : PathTemplate} {environment : Option Environment} {url : String} {c : Char}

theorem encodeDirectory_toList (path : String) :
    (encodeDirectory path).toList =
      '/' :: (pathSegments path).flatMap fun s => (encodeSegment s).toList ++ ['/'] := by
  have hfold : ∀ (segments : List String) (front : String),
      (segments.foldl (fun out s => out ++ encodeSegment s ++ "/") front).toList =
        front.toList ++ segments.flatMap fun s => (encodeSegment s).toList ++ ['/'] := by
    intro segments
    induction segments with
    | nil => simp
    | cons s segments ih =>
      intro front
      rw [List.foldl_cons, ih]
      simp
  exact hfold (pathSegments path) "/"

/-- The segments of a template have no characters but those that an encoded segment has. -/
theorem mem_directory {s : String} (hs : s ∈ pathSegments ((t.directory environment).getD ""))
    (hc : c ∈ s.toList) : c = '%' ∨ isPlain c = true := by
  have hslash : c ≠ '/' := fun h => (isSegment_of_mem_pathSegments hs).2 (h ▸ hc)
  have hmem := PathTree.mem_of_mem_pathSegments hs hc
  unfold directory at hmem
  cases ht : t.substituted environment with
  | none =>
    rw [ht] at hmem
    cases hmem
  | some text =>
    rw [ht, Option.map_some, Option.getD_some, encodeDirectory_toList] at hmem
    rcases List.mem_cons.1 hmem with h | hmem
    · exact absurd h hslash
    · obtain ⟨segment, -, hmem⟩ := List.mem_flatMap.1 hmem
      rcases List.mem_append.1 hmem with hmem | hmem
      · exact mem_encodeSegment hmem
      · exact absurd (List.mem_singleton.1 hmem) hslash

/-- The segments of the path of a URL that does not name its server. -/
def builtSegments (t : PathTemplate) (environment : Option Environment) (url : String) :
    List String :=
  pathSegments ((t.directory environment).getD "") ++ (pathSegments url).map encodeSegment

theorem isSegment_of_mem_builtSegments {s : String} (h : s ∈ t.builtSegments environment url) :
    IsSegment s := by
  rcases List.mem_append.1 h with h | h
  · exact isSegment_of_mem_pathSegments h
  · obtain ⟨segment, hsegment, rfl⟩ := List.mem_map.1 h
    exact isSegment_encodeSegment (isSegment_of_mem_pathSegments hsegment).1

theorem slash_append_joinWith (hne : segments ≠ []) :
    "/" ++ joinWith "/" segments = joinSegments segments := by
  rw [← String.toList_inj, joinSegments_toList, String.toList_append, joinWith]
  rw [String.toList_ofList (l := List.intercalate _ _)]
  show '/' :: List.intercalate ['/'] (segments.map String.toList) = _
  induction segments with
  | nil => exact absurd rfl hne
  | cons s segments ih =>
    cases segments with
    | nil => simp
    | cons s' segments =>
      have ih := ih (List.cons_ne_nil s' segments)
      rw [List.map_cons] at ih
      rw [List.map_cons, List.map_cons, List.intercalate_cons_cons, List.flatMap_cons, ← ih]
      simp

/-- **The path of a URL that does not name its server** has a slash in front of each segment of the
template and of the URL; without any segments it is one slash. -/
theorem build_of_relative (h : isAbsolute url = false) :
    t.build environment url = if t.builtSegments environment url = [] then "/"
      else joinSegments (t.builtSegments environment url) := by
  have hbuild : t.build environment url =
      "/" ++ joinWith "/" (t.builtSegments environment url) := by
    unfold build
    rw [h]
    rfl
  rw [hbuild]
  split
  · rename_i hnil
    rw [hnil]
    rfl
  · rename_i hne
    exact slash_append_joinWith hne

theorem build_of_absolute (h : isAbsolute url = true) : t.build environment url = url := by
  unfold build
  rw [if_pos h]

/-- **The characters of a built path**, unless the URL names its server: slashes and what stands in
encoded segments. -/
theorem mem_build (h : isAbsolute url = false) (hc : c ∈ (t.build environment url).toList) :
    c = '/' ∨ c = '%' ∨ isPlain c = true := by
  rw [build_of_relative h] at hc
  split at hc
  · exact .inl (List.mem_singleton.1 hc)
  · rw [joinSegments_toList] at hc
    obtain ⟨s, hs, hc⟩ := List.mem_flatMap.1 hc
    rcases List.mem_cons.1 hc with rfl | hc
    · exact .inl rfl
    · right
      rcases List.mem_append.1 hs with hs | hs
      · exact mem_directory hs hc
      · obtain ⟨segment, -, rfl⟩ := List.mem_map.1 hs
        exact mem_encodeSegment hc

/-- **A built path is in normal form** unless its URL names the server or there are no segments. -/
theorem isNormalPath_build_iff :
    IsNormalPath (t.build environment url) ↔
      isAbsolute (t.build environment url) = false ∧ t.build environment url ≠ "/" := by
  constructor
  · intro h
    refine ⟨h.isAbsolute_eq_false, ?_⟩
    rintro hslash
    rw [hslash] at h
    exact absurd h (by decide)
  · rintro ⟨hrelative, hne⟩
    have hurl : isAbsolute url = false := by
      refine Bool.eq_false_iff.2 fun habsolute => ?_
      rw [build_of_absolute habsolute, habsolute] at hrelative
      cases hrelative
    rw [build_of_relative hurl] at hne ⊢
    split at hne
    · exact absurd rfl hne
    · rename_i hsegments
      rw [if_neg hsegments]
      exact isNormalPath_joinSegments hsegments fun s hs => isSegment_of_mem_builtSegments hs

end PathTemplate

end EntitlementAuthority
