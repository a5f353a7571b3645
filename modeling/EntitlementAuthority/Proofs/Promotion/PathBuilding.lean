import EntitlementAuthority.Proofs.Promotion.Container
import EntitlementAuthority.Proofs.Text.Escapes

/-!
# What paths are built of

A path is made of the segments of the template, with the name of the environment in it, and of those
of the URL. Each of them is encoded once and can be read back, so that the path tells what they are.

* `PathTemplate.filled` — the template with the name of the environment in it.
* `PathTemplate.segmentsOf` — the segments that a path is built of.
* `PathTemplate.build_exact` — the path that is built of them, and how they are read back.
-/

namespace EntitlementAuthority

open Text

namespace PathTemplate

variable {text : Option String} {environment : Option Environment} {url : String}

/-- The text of a template with the name of an environment in it, if there is one. Blank text counts
as empty, and so does none. -/
def filled (text : Option String) (environment : Option Environment) : String :=
  match text, environment with
  | none, _ => ""
  | some s, none => if isBlank s then "" else s
  | some s, some e => if isBlank s then "" else replaceAll environmentVariable e.name s

/-- The segments of the template and then those of the URL. -/
def segmentsOf (text : Option String) (environment : Option Environment) (url : String) :
    List String :=
  pathSegments (filled text environment) ++ pathSegments url

theorem substituted_ofText (text : Option String) (environment : Option Environment) :
    ((ofText text).substituted environment).getD "" = filled text environment := by
  unfold substituted ofText nonBlank? filled
  cases text with
  | none => rfl
  | some s =>
    dsimp only
    rw [Option.filter_some]
    cases hblank : isBlank s <;> cases environment <;> simp only [hblank] <;> rfl

theorem builtSegments_ofText (text : Option String) (environment : Option Environment)
    (url : String) : (ofText text).builtSegments environment url =
      (segmentsOf text environment url).map encodeSegment := by
  rw [builtSegments_eq, substituted_ofText, segmentsOf]

theorem build_ofText (h : isAbsolute url = false) : (ofText text).build environment url =
    "/" ++ joinWith "/" ((segmentsOf text environment url).map encodeSegment) := by
  rw [← builtSegments_ofText, build, h]
  rfl

/-- What is read back from a segment of a path. -/
def readSegment? (s : String) : Option String :=
  Bytes.toText? (decodePercent s.toList)

theorem readSegment?_encodeSegment (s : String) : readSegment? (encodeSegment s) = some s := by
  rw [readSegment?, toText?_decodePercent_encodeSegment]

theorem ne_empty_of_mem_segmentsOf {s : String} (hs : s ∈ segmentsOf text environment url) :
    s ≠ "" := by
  rcases List.mem_append.1 hs with hs | hs
  · exact (isSegment_of_mem_pathSegments hs).1
  · exact (isSegment_of_mem_pathSegments hs).1

/-- The segments of a path are read back. -/
theorem readSegments_build (h : isAbsolute url = false) :
    (pathSegments ((ofText text).build environment url)).map readSegment? =
      (segmentsOf text environment url).map some := by
  rw [pathSegments_build h, builtSegments_ofText, List.map_map]
  refine List.map_congr_left fun s _ => ?_
  rw [Function.comp_apply, readSegment?_encodeSegment]

/-- **A path is built of its segments**, which are encoded as in a URL but for `$`, each of them
once: they are read back from the path, and paths are the same only if their segments are. -/
theorem build_exact (text text' : Option String) (environment environment' : Option Environment)
    {url url' : String} (h : isAbsolute url = false) (h' : isAbsolute url' = false) :
    (ofText text).build environment url =
      "/" ++ joinWith "/" ((segmentsOf text environment url).map encodeSegment) ∧
    (∀ s ∈ segmentsOf text environment url,
      encodeSegment s = replaceAll dollarEscape "$" (urlEncode s) ∧ encodeSegment s ≠ "" ∧
        IsEscaped (encodeSegment s).toList ∧ readSegment? (encodeSegment s) = some s) ∧
    (pathSegments ((ofText text).build environment url)).map readSegment? =
      (segmentsOf text environment url).map some ∧
    ((ofText text).build environment url = (ofText text').build environment' url' ↔
      segmentsOf text environment url = segmentsOf text' environment' url') := by
  refine ⟨build_ofText h, fun s hs => ?_, readSegments_build h, fun heq => ?_, fun heq => ?_⟩
  · have hne := (isSegment_encodeSegment (ne_empty_of_mem_segmentsOf hs)).1
    exact ⟨encodeSegment_eq_replaceAll s, hne, isEscaped_encodeSegment s,
      readSegment?_encodeSegment s⟩
  · have hread : (pathSegments ((ofText text).build environment url)).map readSegment? =
        (segmentsOf text environment url).map some := readSegments_build h
    rw [heq, readSegments_build h'] at hread
    exact (List.map_injective_iff.2 (Option.some_injective _) hread).symm
  · rw [build_ofText h, build_ofText h', heq]

/-- The template has the name of the environment in it, or the URL has everything as it is. -/
theorem build_exact_named :
    (ofText (some "/org/$env/")).build (some (NamedEnvironment.environment "dev team"))
        "//content/$releasever/os/" = "/org/dev%20team/content/$releasever/os" ∧
      (ofText (some "/org/$env/")).build (some (NamedEnvironment.environment "dev team"))
        "//content/$releasever/os/" =
          (ofText none).build none "org/dev team/content/$releasever/os" := by
  have hrelative : isAbsolute "//content/$releasever/os/" = false := by decide
  have hrelative' : isAbsolute "org/dev team/content/$releasever/os" = false := by decide
  have hsegments : segmentsOf (some "/org/$env/") (some (NamedEnvironment.environment "dev team"))
      "//content/$releasever/os/" = ["org", "dev team", "content", "$releasever", "os"] := by
    decide +kernel
  have hsegments' : segmentsOf none none "org/dev team/content/$releasever/os" =
      ["org", "dev team", "content", "$releasever", "os"] := by
    decide +kernel
  obtain ⟨hpath, -, -, hsame⟩ := build_exact (some "/org/$env/") none
    (some (NamedEnvironment.environment "dev team")) none hrelative hrelative'
  refine ⟨?_, hsame.2 (hsegments.trans hsegments'.symm)⟩
  rw [hpath, hsegments]
  decide +kernel

end PathTemplate

end EntitlementAuthority
