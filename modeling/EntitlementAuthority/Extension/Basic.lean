import EntitlementAuthority.Der.ExtensionValue
import EntitlementAuthority.Oid
import EntitlementAuthority.Text.Integer

/-!
# Entitlement extensions

What a certificate says about an entitlement stands in extensions below the base of this
authority.

* `Extension` — an identifier with a value.
* `numericId?` — products and contents whose ids are numbers can be named by an identifier.
-/

namespace EntitlementAuthority

/-- An extension of a certificate. -/
structure Extension where
  oid : Oid
  /-- Whether readers that do not know the extension have to refuse the certificate. -/
  critical : Bool
  value : ExtensionValue
deriving DecidableEq, Repr

namespace Extension

/-- An extension that holds text. -/
def text (oid : Oid) (value : String) : Extension :=
  ⟨oid, false, .text value⟩

/-- An extension that holds bytes. -/
def bytes (oid : Oid) (value : Bytes) : Extension :=
  ⟨oid, false, .bytes value⟩

/-- An extension that holds text, if there is any. -/
def text? (oid : Oid) (value : Option String) : List Extension :=
  (value.map (text oid)).toList

/-- An extension that holds a list with commas, unless the list is empty. -/
def texts (oid : Oid) (values : List String) : List Extension :=
  if values.isEmpty then [] else [text oid (Text.joinWith "," values)]

/-- How a truth value is written. -/
def flag (b : Bool) : String :=
  if b then "1" else "0"

end Extension

/-- The number that an id stands for, which has to fit an arc. -/
def numericId? (id : String) : Option Nat :=
  Text.readWord64? id

end EntitlementAuthority
