import EntitlementAuthority.Catalog.Content
import EntitlementAuthority.Fault
import EntitlementAuthority.Table
import EntitlementAuthority.Text.Fields
import EntitlementAuthority.Text.Sorted

/-!
# Products

A product carries contents, provides other products and may name a derived product for the
guests of a host.

* `Product` — a product with everything it provides.
* `Product.reach` — the product and what it provides, at any depth.
* `Product.graph` — the same with derived products.
* `Product.attr?` — an attribute that is not blank.
* `Product.validateGraph` — refuses graphs with records that cannot be shown.
* `mergeContents` — every content of a list once, enabled if it is enabled anywhere.
-/

namespace EntitlementAuthority

/-- The brand of a product in a pool. -/
structure Branding where
  productId : String
  name : String
  type : String
deriving DecidableEq, Repr, Inhabited

/-- A product with everything it provides. -/
structure Product where
  id : String
  name : String
  attributes : Table String String
  contents : List ProductContent
  provided : List Product
  derived : Option Product
  branding : List Branding
  productNamespace : Option String
deriving Inhabited

/-- Whether a value stands for yes: `true` in any case, or `1`. -/
def isTruthy (value : String) : Bool :=
  value.toList.map Char.toLower == ['t', 'r', 'u', 'e'] || value == "1"

/-- Whether an attribute is there and stands for yes. -/
def attributeFlag (value : Option String) : Bool :=
  value.any isTruthy

namespace Product

/-! ### The graph of a product -/

mutual

/-- The product and what it provides, at any depth, parents first. -/
def reach : Product → List Product
  | ⟨id, name, attributes, contents, provided, derived, branding, ns⟩ =>
    ⟨id, name, attributes, contents, provided, derived, branding, ns⟩ :: reachAll provided

/-- The products and what they provide, at any depth. -/
def reachAll : List Product → List Product
  | [] => []
  | p :: ps => reach p ++ reachAll ps

end

mutual

/-- The product, then what it provides and then its derived product, at any depth. -/
def graph : Product → List Product
  | ⟨id, name, attributes, contents, provided, derived, branding, ns⟩ =>
    ⟨id, name, attributes, contents, provided, derived, branding, ns⟩ ::
      (graphAll provided ++ graphOption derived)

/-- The graphs of several products. -/
def graphAll : List Product → List Product
  | [] => []
  | p :: ps => graph p ++ graphAll ps

/-- The graph of a product that may be missing. -/
def graphOption : Option Product → List Product
  | none => []
  | some p => graph p

end

theorem reachAll_eq_flatMap (ps : List Product) : reachAll ps = ps.flatMap reach := by
  induction ps with
  | nil => simp [reachAll]
  | cons p ps ih => simp [reachAll, ih]

theorem graphAll_eq_flatMap (ps : List Product) : graphAll ps = ps.flatMap graph := by
  induction ps with
  | nil => simp [graphAll]
  | cons p ps ih => simp [graphAll, ih]

theorem reach_eq (p : Product) : p.reach = p :: p.provided.flatMap reach := by
  cases p
  simp [reach, reachAll_eq_flatMap]

theorem graph_eq (p : Product) :
    p.graph = p :: (p.provided.flatMap graph ++ p.derived.toList.flatMap graph) := by
  cases p with
  | mk id name attributes contents provided derived branding ns =>
    cases derived <;> simp [graph, graphAll_eq_flatMap, graphOption]

/-! ### Attributes -/

/-- An attribute, unless it is blank. -/
def attr? (p : Product) (name : String) : Option String :=
  Text.nonBlank? (p.attributes.get? name)

/-- The contents that a subscription product enables. -/
def enabledContentIds (p : Product) : List String :=
  ((p.attr? "content_enabled").map Text.listItems).getD []

/-- The contents that a subscription product disables. -/
def disabledContentIds (p : Product) : List String :=
  ((p.attr? "content_disabled").map Text.listItems).getD []

/-! ### Contents -/

/-- Whether the product itself carries a content. -/
def hasContent (p : Product) (contentId : String) : Bool :=
  p.contents.any (·.content.id == contentId)

/-- The ids of the contents that the product itself carries. -/
def ownContentIds (p : Product) : List String :=
  p.contents.map (·.content.id)

/-- The ids of the contents of the product and what it provides. -/
def contentIds (p : Product) : List String :=
  Text.sortedSet (p.reach.flatMap ownContentIds)

/-- Certificates only name engineering products, whose ids are numbers. -/
def isEngineering (p : Product) : Bool :=
  !p.id.isEmpty && p.id.toList.all Char.isDigit

/-! ### Records that cannot be shown -/

/-- Refuses a product without an id and a brand without a product or a name. -/
def validate (p : Product) : Outcome Unit :=
  if Text.isBlank p.id then .error (.validation ("product '" ++ p.name ++ "' has no id"))
  else if p.branding.any fun b => Text.isBlank b.productId || Text.isBlank b.name then
    .error (.validation ("product " ++ p.id ++ " has an incomplete branding record"))
  else .ok ()

/-- Refuses a graph with a product that is refused; the first one is reported. -/
def validateGraph (p : Product) : Outcome Unit :=
  p.graph.forM validate

end Product

/-! ### Merging contents -/

/-- Enters a content into a sorted list: a known content keeps its record and becomes enabled
if the new one is. -/
def mergeContent (pc : ProductContent) : List ProductContent → List ProductContent
  | [] => [pc]
  | other :: rest =>
    if pc.content.id < other.content.id then pc :: other :: rest
    else if pc.content.id = other.content.id then
      { other with enabled := other.enabled || pc.enabled } :: rest
    else other :: mergeContent pc rest

/-- The contents of a list in the order of their ids, each once; the first record counts. -/
def mergeContents (contents : List ProductContent) : List ProductContent :=
  contents.foldl (fun merged pc => mergeContent pc merged) []

end EntitlementAuthority
