import EntitlementAuthority.Issuance.ContentAccess
import EntitlementAuthority.Proofs.Promotion.ContentPath
import EntitlementAuthority.Proofs.Text.Percent
import Mathlib.Data.List.Infix

/-!
# Paths and the directories that grant them

The certificate for content access names one directory for each environment, made of the key of the
owner and the name of the environment. The payload lists paths with the owner's template in front,
in which the key and the name stand as they are. If the template is the key and the name, the paths
are meant to lie under the directories.

* `PathTemplate.pathSegments_build` — the segments of a built path.
* `LiesUnder` — a path that is a directory or lies under it.
* `Owner.IsPrefixedByKey` — the template is the key and the name.
* `path_liesUnder_container_iff` — which paths lie under the directory of their environment.
-/

namespace EntitlementAuthority

open Text

/-! ### Segments -/

namespace Text

theorem pathSegments_append_slash (front rest : String) :
    pathSegments (front ++ "/" ++ rest) = pathSegments front ++ pathSegments rest := by
  have hchars : (front ++ "/" ++ rest).toList = front.toList ++ '/' :: rest.toList := by simp
  unfold pathSegments
  rw [hchars, splitOnChar_append_sep, List.map_append, List.filter_append]

theorem IsSegment.pathSegments_eq {s : String} (h : IsSegment s) : pathSegments s = [s] := by
  unfold pathSegments
  rw [splitOnChar_of_notMem h.2, List.map_singleton, String.ofList_toList,
    List.filter_cons_of_pos (by simpa using h.1), List.filter_nil]

/-- A pattern that is found once, at the end, is replaced there. -/
theorem replaceChars_append {pattern replacement before : List Char} (hne : pattern ≠ [])
    (hcut : cutAt? pattern (before ++ pattern) = some (before, [])) :
    replaceChars pattern replacement (before ++ pattern) = before ++ replacement := by
  rw [replaceChars_of_some hne hcut, replaceChars_nil hne, List.append_nil]

end Text

theorem joinSegments_append (front rest : List String) :
    joinSegments (front ++ rest) = joinSegments front ++ joinSegments rest := by
  rw [← String.toList_inj, String.toList_append, joinSegments_toList, joinSegments_toList,
    joinSegments_toList, List.flatMap_append]

theorem encodeDirectory_eq (path : String) :
    encodeDirectory path = joinSegments ((pathSegments path).map encodeSegment) ++ "/" := by
  rw [← String.toList_inj, PathTemplate.encodeDirectory_toList, String.toList_append,
    joinSegments_toList, List.flatMap_map]
  show _ = _ ++ ['/']
  induction pathSegments path with
  | nil => rfl
  | cons s segments ih =>
    rw [List.flatMap_cons, List.flatMap_cons, List.append_assoc, List.append_assoc, ← ih]
    rfl

theorem isSegment_of_mem_map_encodeSegment {path s : String}
    (h : s ∈ (pathSegments path).map encodeSegment) : IsSegment s := by
  obtain ⟨segment, hsegment, rfl⟩ := List.mem_map.1 h
  exact isSegment_encodeSegment (isSegment_of_mem_pathSegments hsegment).1

theorem pathSegments_encodeDirectory (path : String) :
    pathSegments (encodeDirectory path) = (pathSegments path).map encodeSegment := by
  have hempty : pathSegments "" = [] := rfl
  rw [encodeDirectory_eq, ← String.append_empty (s := _ ++ "/"), pathSegments_append_slash,
    pathSegments_joinSegments fun s => isSegment_of_mem_map_encodeSegment, hempty,
    List.append_nil]

namespace PathTemplate

variable {t : PathTemplate} {environment : Option Environment} {url : String}

/-- Every segment of the template and of the URL is encoded once. -/
theorem builtSegments_eq (t : PathTemplate) (environment : Option Environment) (url : String) :
    t.builtSegments environment url =
      (pathSegments ((t.substituted environment).getD "") ++ pathSegments url).map
        encodeSegment := by
  unfold builtSegments directory
  rw [List.map_append]
  cases t.substituted environment with
  | none => rfl
  | some text => rw [Option.map_some, Option.getD_some, Option.getD_some,
      pathSegments_encodeDirectory]

/-- **The segments of a built path**, unless the URL names its server. -/
theorem pathSegments_build (h : isAbsolute url = false) :
    pathSegments (t.build environment url) = t.builtSegments environment url := by
  rw [build_of_relative h]
  split
  · rename_i hnil
    rw [hnil]
    rfl
  · exact pathSegments_joinSegments fun s => isSegment_of_mem_builtSegments

end PathTemplate

/-! ### Directories -/

/-- A path is a directory or lies under it. -/
def LiesUnder (path directory : String) : Prop :=
  path = directory ∨ (directory ++ "/").toList <+: path.toList

instance (path directory : String) : Decidable (LiesUnder path directory) :=
  inferInstanceAs (Decidable (_ ∨ _))

/-- What lies under a directory begins with its segments. -/
theorem LiesUnder.segments_prefix {path directory : String} (h : LiesUnder path directory) :
    pathSegments directory <+: pathSegments path := by
  rcases h with rfl | ⟨rest, hrest⟩
  · exact List.prefix_refl _
  · have hpath : path = directory ++ "/" ++ String.ofList rest := by
      rw [← String.toList_inj, ← hrest, String.toList_append (s := directory ++ "/"),
        String.toList_ofList]
    rw [hpath, pathSegments_append_slash]
    exact List.prefix_append _ _

theorem liesUnder_joinSegments (front rest : List String) :
    LiesUnder (joinSegments (front ++ rest)) (joinSegments front) := by
  rw [joinSegments_append]
  cases rest with
  | nil => exact .inl String.append_empty
  | cons s rest =>
    right
    rw [NodeTable.append_joinSegments_cons, String.append_assoc, String.toList_append (t := s ++ _)]
    exact List.prefix_append _ _

namespace ContentAccess

/-- The directory that a certificate names for an environment. -/
def containerPath (owner : Owner) (e : Environment) : String :=
  joinSegments [encodeSegment owner.key, encodeSegment e.name]

theorem pathSegments_containerPath {owner : Owner} {e : Environment} (hkey : owner.key ≠ "")
    (hname : e.name ≠ "") :
    pathSegments (containerPath owner e) = [encodeSegment owner.key, encodeSegment e.name] := by
  refine pathSegments_joinSegments fun s hs => ?_
  simp only [List.mem_cons, List.not_mem_nil, or_false] at hs
  rcases hs with rfl | rfl
  · exact isSegment_encodeSegment hkey
  · exact isSegment_encodeSegment hname

theorem containerPaths_eq_map (owner : Owner) {environments : List Environment}
    (h : environments ≠ []) :
    containerPaths owner environments = environments.map (containerPath owner) := by
  unfold containerPaths
  rw [if_neg (by simpa using h)]
  rfl

end ContentAccess

/-! ### Owners whose template is the key and the name -/

/-- Paths have the key of the owner in front, and then the name of the environment. -/
structure Owner.IsPrefixedByKey (o : Owner) : Prop where
  contentPrefix : o.contentPrefix = some ("/" ++ o.key ++ "/" ++ PathTemplate.environmentVariable)
  key : isBlank o.key = false
  noVariable : containsText PathTemplate.environmentVariable o.key = false

theorem Text.ne_empty_of_isBlank {s : String} (h : isBlank s = false) : s ≠ "" := by
  rintro rfl
  cases h

section Scoped

variable {owner : Owner} {e : Environment} {url : String}

/-- The variable does not stand in the key, nor over one of the slashes around it. -/
theorem Owner.IsPrefixedByKey.variable_not_infix (h : owner.IsPrefixedByKey) :
    ¬ ['$', 'e', 'n', 'v'] <:+: ("/" ++ owner.key ++ "/").toList := by
  have hkey : ¬ "$env".toList <:+: owner.key.toList := by
    rw [← containsText_iff]
    exact Bool.eq_false_iff.1 h.noVariable
  have hchars : ("/" ++ owner.key ++ "/").toList = [] ++ '/' :: (owner.key.toList ++ ['/']) := by
    simp
  rw [hchars]
  intro hin
  rcases infix_or_of_infix_append (by decide) hin with hin | hin
  · exact absurd hin (by decide)
  · rcases infix_or_of_infix_append (by decide) hin with hin | hin
    · exact hkey hin
    · exact absurd hin (by decide)

theorem Owner.IsPrefixedByKey.ofOwner_eq (h : owner.IsPrefixedByKey) (fallback : Option String) :
    PathTemplate.ofOwner owner fallback =
      ⟨some ("/" ++ owner.key ++ "/" ++ PathTemplate.environmentVariable)⟩ := by
  unfold PathTemplate.ofOwner PathTemplate.ofText
  rw [h.contentPrefix, Option.some_or, nonBlank?, Option.filter_some, if_pos]
  simp [isBlank, isWhiteSpace]

theorem Owner.IsPrefixedByKey.substituted (h : owner.IsPrefixedByKey) (fallback : Option String)
    (e : Environment) :
    (PathTemplate.ofOwner owner fallback).substituted (some e) =
      some ("/" ++ owner.key ++ "/" ++ e.name) := by
  -- the variable is found at the end, where the template has it, and not before
  have honce : '$' ∉ ['e', 'n', 'v'] := by decide
  have hcut := cutAt?_append [] honce h.variable_not_infix
  rw [List.append_nil] at hcut
  rw [h.ofOwner_eq]
  refine congrArg some ?_
  show replaceAll _ _ _ = _
  rw [← String.toList_inj, replaceAll, String.toList_ofList, String.toList_append,
    String.toList_append (t := e.name)]
  exact replaceChars_append (by decide) hcut

/-- In front of a path in an environment stand the key and the name, cut at their slashes. -/
theorem Owner.IsPrefixedByKey.builtSegments_eq (h : owner.IsPrefixedByKey)
    (fallback : Option String) (e : Environment) (url : String) :
    (PathTemplate.ofOwner owner fallback).builtSegments (some e) url =
      (pathSegments owner.key ++ pathSegments e.name ++ pathSegments url).map encodeSegment := by
  have hempty : pathSegments "" = [] := rfl
  have hfront : pathSegments ("/" ++ owner.key) = pathSegments owner.key := by
    rw [← String.empty_append (s := "/" ++ owner.key), ← String.append_assoc,
      pathSegments_append_slash, hempty, List.nil_append]
  rw [PathTemplate.builtSegments_eq, h.substituted, Option.getD_some, pathSegments_append_slash,
    hfront]

/-- **A path lies under the directory of its environment** exactly if neither the key nor the name
is cut. -/
theorem Owner.IsPrefixedByKey.build_liesUnder_iff (h : owner.IsPrefixedByKey)
    (fallback : Option String) (hname : isBlank e.name = false)
    (hurl : PathTemplate.isAbsolute url = false) :
    LiesUnder ((PathTemplate.ofOwner owner fallback).build (some e) url)
        (ContentAccess.containerPath owner e) ↔
      '/' ∉ owner.key.toList ∧ '/' ∉ e.name.toList := by
  have hkey : owner.key ≠ "" := ne_empty_of_isBlank h.key
  have hname : e.name ≠ "" := ne_empty_of_isBlank hname
  have hsegments := h.builtSegments_eq fallback e url
  constructor
  · intro hunder
    have hprefix := hunder.segments_prefix
    rw [PathTemplate.pathSegments_build hurl, hsegments,
      ContentAccess.pathSegments_containerPath hkey hname] at hprefix
    -- different segments are encoded differently, so the key and the name are segments
    have hfront : [owner.key, e.name] <+:
        pathSegments owner.key ++ pathSegments e.name ++ pathSegments url :=
      (List.prefix_map_iff_of_injective encodeSegment_injective).1 hprefix
    have hnoSlash : ∀ s ∈ [owner.key, e.name], '/' ∉ s.toList := by
      intro s hs
      have hmem := hfront.subset hs
      rw [List.append_assoc, List.mem_append, List.mem_append] at hmem
      rcases hmem with hs | hs | hs <;> exact (isSegment_of_mem_pathSegments hs).2
    exact ⟨hnoSlash _ List.mem_cons_self, hnoSlash _ (List.mem_cons_of_mem _ List.mem_cons_self)⟩
  · rintro ⟨hkeySlash, hnameSlash⟩
    rw [IsSegment.pathSegments_eq ⟨hkey, hkeySlash⟩,
      IsSegment.pathSegments_eq ⟨hname, hnameSlash⟩, List.map_append] at hsegments
    rw [PathTemplate.build_of_relative hurl, hsegments, if_neg (by simp)]
    exact liesUnder_joinSegments _ _

end Scoped

/-! ### The directory of the environment that wins -/

/-- **Which content paths lie under the directory that grants them.** If the template of an owner is
its key and the name of the environment, the directory of the environment that wins a content is the
encoded key and the encoded name. The path of the content has the key and the name in front too, but
cut at their slashes before they are encoded, so that it lies under the directory exactly if there
are none to cut; a URL that names its server is no path of the owner at all. -/
theorem path_liesUnder_container_iff {owner : Owner} (howner : owner.IsPrefixedByKey)
    (fallback : Option String) {environments : List Environment}
    (hnames : ∀ e ∈ environments, isBlank e.name = false) {content : Content}
    (hpromoted : ∃ e ∈ environments, e.promotes content.id = true) :
    ∃ e directory, winner environments content.id = some e ∧
      (ContentAccess.containerPaths owner environments)[environments.findIdx
        fun e => e.promotes content.id]? = some directory ∧
      pathSegments directory = [encodeSegment owner.key, encodeSegment e.name] ∧
      (PathTemplate.isAbsolute content.url = false →
        pathSegments ((PromotedContent.mk (.ofOwner owner fallback) environments).path content) =
            (pathSegments owner.key ++ pathSegments e.name ++ pathSegments content.url).map
              encodeSegment ∧
          (LiesUnder ((PromotedContent.mk (.ofOwner owner fallback) environments).path content)
              directory ↔
            '/' ∉ owner.key.toList ∧ '/' ∉ e.name.toList)) ∧
      (PathTemplate.isAbsolute content.url = true →
        (PromotedContent.mk (.ofOwner owner fallback) environments).path content =
          content.url) := by
  have hne : environments ≠ [] := by
    obtain ⟨e, he, -⟩ := hpromoted
    exact List.ne_nil_of_mem he
  obtain ⟨e, he⟩ : ∃ e, winner environments content.id = some e :=
    Option.isSome_iff_exists.1 (List.find?_isSome.2 hpromoted)
  have hname := hnames e (mem_of_winner he)
  have hpath : (PromotedContent.mk (.ofOwner owner fallback) environments).path content =
      (PathTemplate.ofOwner owner fallback).build (some e) content.url := by
    rw [PromotedContent.path, PromotedContent.winner, he]
  have hcontainer : (ContentAccess.containerPaths owner environments)[environments.findIdx
      fun e => e.promotes content.id]? = some (ContentAccess.containerPath owner e) := by
    rw [ContentAccess.containerPaths_eq_map owner hne, List.getElem?_map,
      ← List.find?_eq_getElem?_findIdx]
    exact congrArg (Option.map _) he
  refine ⟨e, _, he, hcontainer,
    ContentAccess.pathSegments_containerPath (ne_empty_of_isBlank howner.key)
      (ne_empty_of_isBlank hname), ?_, ?_⟩
  · intro hurl
    rw [hpath, PathTemplate.pathSegments_build hurl, howner.builtSegments_eq]
    exact ⟨rfl, howner.build_liesUnder_iff fallback hname hurl⟩
  · intro hurl
    rw [hpath, PathTemplate.build_of_absolute hurl]

/-! ### Names with and without a slash -/

namespace NamedEnvironment

/-- An owner whose template is its key and the name of the environment. -/
def owner : Owner :=
  { id := "owner-1"
    key := "acme"
    contentPrefix := some "/acme/$env"
    accessMode := .orgEnvironment
    contentUpdated := ⟨0, 0⟩ }

/-- An environment that promotes one content. -/
def environment (name : String) : Environment where
  id := "env-1"
  ownerId := "owner-1"
  name
  promotions := Table.ofList [("1000", ⟨none⟩)]
  contentUpdated := ⟨0, 0⟩

/-- The content. -/
def content : Content :=
  { (default : Content) with id := "1000", url := "/content/os" }

theorem isPrefixedByKey : owner.IsPrefixedByKey := ⟨by decide, by decide, by decide⟩

/-- The path of the content in an environment of the given name. -/
def path (name : String) : String :=
  (PromotedContent.mk (.ofOwner owner none) [environment name]).path content

end NamedEnvironment

open NamedEnvironment

/-- A name with a blank is encoded alike in the path and in the directory. -/
theorem path_liesUnder_container_named : owner.IsPrefixedByKey ∧
    (∀ e ∈ [environment "dev team"], isBlank e.name = false) ∧
    (∃ e ∈ [environment "dev team"], e.promotes content.id = true) ∧
    LiesUnder (path "dev team") "/acme/dev%20team" := by
  have hnames : ∀ e ∈ [environment "dev team"], isBlank e.name = false := by decide
  have hpromoted : ∃ e ∈ [environment "dev team"], e.promotes content.id = true := by decide
  obtain ⟨e, directory, he, hdirectory, -, hrelative, -⟩ :=
    path_liesUnder_container_iff isPrefixedByKey none hnames hpromoted
  obtain rfl : environment "dev team" = e := Option.some.inj he
  obtain rfl : "/acme/dev%20team" = directory := Option.some.inj hdirectory
  exact ⟨isPrefixedByKey, hnames, hpromoted, (hrelative (by decide)).2.2 (by decide)⟩

/-- A slash in the name of the environment cuts the path, but is encoded in the directory, so that
the path does not lie under it. -/
theorem name_with_slash_leaves_container : owner.IsPrefixedByKey ∧
    isBlank (environment "dev/qa").name = false ∧
    (environment "dev/qa").promotes content.id = true ∧
    ContentAccess.containerPaths owner [environment "dev/qa"] = ["/acme/dev%2Fqa"] ∧
    path "dev/qa" = "/acme/dev/qa/content/os" ∧
    ¬ LiesUnder (path "dev/qa") "/acme/dev%2Fqa" := by
  have hpath : path "dev/qa" = "/acme/dev/qa/content/os" := by
    show (PathTemplate.ofOwner owner none).build (some (environment "dev/qa")) content.url = _
    rw [PathTemplate.build_of_relative (by decide), isPrefixedByKey.builtSegments_eq]
    decide
  refine ⟨isPrefixedByKey, by decide, by decide, by decide, hpath, ?_⟩
  rw [hpath]
  decide

end EntitlementAuthority
