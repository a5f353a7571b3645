import EntitlementAuthority.Body.Basic
import EntitlementAuthority.Extension.Basic
import EntitlementAuthority.PathTree.LookUp
import EntitlementAuthority.Text.Blank

/-!
# Compact certificates

A compact certificate has the content paths in one extension, as a tree; everything else is in
the signed payload.

* `EntitlementLevel` — what a certificate grants access by.
* `compactExtensions` — all extensions of a compact certificate; `compactExtensionsWith` gives up
  where a code of the tree is missing, and compresses in any way.
-/

namespace EntitlementAuthority

/-- What a certificate grants access by. -/
inductive EntitlementLevel where
  /-- By what is listed in it. -/
  | basic
  /-- By belonging to an organisation. -/
  | organisation
deriving DecidableEq, Repr

/-- How a level is written in a certificate. -/
def EntitlementLevel.text : EntitlementLevel → String
  | basic => "Basic"
  | organisation => "OrgLevel"

/-- The extensions of a compact certificate: version, type, namespace unless it is blank, and
the tree of content paths. -/
def compactExtensions (b : EntitlementBody) (level : EntitlementLevel) (version : String)
    (productNamespace : Option String) : List Extension :=
  [Extension.text Oid.version version, Extension.text Oid.certificateType level.text]
    ++ Extension.text? Oid.productNamespace (Text.nonBlank? productNamespace)
    ++ [Extension.bytes Oid.contentTree (PathTree.encode b.contentPaths)]

/-- The extensions of a compact certificate with the given tree. -/
def extensionsWithTree (level : EntitlementLevel) (version : String)
    (productNamespace : Option String) (tree : Bytes) : List Extension :=
  [Extension.text Oid.version version, Extension.text Oid.certificateType level.text]
    ++ Extension.text? Oid.productNamespace (Text.nonBlank? productNamespace)
    ++ [Extension.bytes Oid.contentTree tree]

/-- The extensions of a compact certificate, where every code of the tree is looked up and the
dictionary is compressed in some way. -/
def compactExtensionsWith (deflate : Bytes → Bytes) (b : EntitlementBody)
    (level : EntitlementLevel) (version : String) (productNamespace : Option String) :
    Outcome (List Extension) := do
  let tree ← PathTree.encodeWith deflate b.contentPaths
  .ok (extensionsWithTree level version productNamespace tree)

end EntitlementAuthority
