import EntitlementAuthority.Catalog.Content
import EntitlementAuthority.Promotion.Winner
import EntitlementAuthority.Registry.Owner
import EntitlementAuthority.Text.Fields
import EntitlementAuthority.Text.Percent

/-!
# Content paths

The path of a content is the owner's template, in which `$env` stands for the name of the
winning environment, followed by the URL of the content; every segment of both is encoded once.

* `PathTemplate` — what stands in front of every path of an owner.
* `PathTemplate.build` — the path of a URL.
* `PromotedContent` — a template together with the environments of a consumer.
-/

namespace EntitlementAuthority

/-- The encoded segments with a slash in front of each and behind the last. -/
def encodeDirectory (path : String) : String :=
  (Text.pathSegments path).foldl (fun out s => out ++ Text.encodeSegment s ++ "/") "/"

/-- What stands in front of every content path of an owner; a blank template is none. -/
structure PathTemplate where
  text : Option String
deriving DecidableEq, Repr

namespace PathTemplate

/-- The variable that stands for the name of the winning environment. -/
def environmentVariable : String := "$env"

/-- The template with the given text. -/
def ofText (text : Option String) : PathTemplate :=
  ⟨Text.nonBlank? text⟩

/-- The template of an owner; `fallback` is for owners that have none. -/
def ofOwner (owner : Owner) (fallback : Option String) : PathTemplate :=
  ofText (owner.contentPrefix.or fallback)

/-- Whether paths depend on the environment. -/
def namesEnvironment (t : PathTemplate) : Bool :=
  t.text.any fun text => Text.containsText environmentVariable text

/-- The template with the name of the environment in it. -/
def substituted (t : PathTemplate) (environment : Option Environment) : Option String :=
  t.text.map fun text =>
    match environment with
    | some e => Text.replaceAll environmentVariable e.name text
    | none => text

/-- The front of every path, encoded. -/
def directory (t : PathTemplate) (environment : Option Environment) : Option String :=
  (t.substituted environment).map encodeDirectory

/-- Whether a URL names its server itself. -/
def isAbsolute (url : String) : Bool :=
  Text.containsText "://" url

/-- The path of a URL. A URL that names its server is left as it is. -/
def build (t : PathTemplate) (environment : Option Environment) (url : String) : String :=
  if isAbsolute url then url
  else
    let front := Text.pathSegments ((t.directory environment).getD "")
    "/" ++ Text.joinWith "/" (front ++ (Text.pathSegments url).map Text.encodeSegment)

end PathTemplate

/-- What the environments of a consumer promote, the one that wins first, and the template of
the paths. -/
structure PromotedContent where
  template : PathTemplate
  environments : List Environment

namespace PromotedContent

/-- No environments: paths have the template alone in front. -/
def unscoped (template : PathTemplate) : PromotedContent :=
  ⟨template, []⟩

/-- The environment that a content belongs to. -/
def winner (p : PromotedContent) (contentId : String) : Option Environment :=
  EntitlementAuthority.winner p.environments contentId

/-- Whether any environment promotes a content. -/
def isPromoted (p : PromotedContent) (contentId : String) : Bool :=
  (p.winner contentId).isSome

/-- Whether the winning environment enables a content; none if it leaves that open. -/
def enabled? (p : PromotedContent) (contentId : String) : Option Bool := do
  let environment ← p.winner contentId
  let promotion ← environment.promotions.get? contentId
  promotion.enabled

/-- The path of a content. -/
def path (p : PromotedContent) (content : Content) : String :=
  p.template.build (p.winner content.id) content.url

end PromotedContent

end EntitlementAuthority
