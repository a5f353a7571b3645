/-!
# Contents

A content is a set of repositories that a product makes available.

* `Content` — one content.
* `ProductContent` — a content as a product carries it.
-/

namespace EntitlementAuthority

/-- A content that products can carry. -/
structure Content where
  id : String
  type : String
  name : String
  label : String
  vendor : String
  url : String
  gpgUrl : Option String
  /-- Comma separated architectures; none means those of the product. -/
  arches : Option String
  metadataExpire : Option Int
  requiredTags : Option String
  /-- The products this content modifies; only those entitled to one of them get it. -/
  modifiedProductIds : List String
deriving DecidableEq, Repr, Inhabited

/-- A content as a product carries it. -/
structure ProductContent where
  content : Content
  /-- Whether the product enables the content. -/
  enabled : Bool
deriving DecidableEq, Repr, Inhabited

end EntitlementAuthority
