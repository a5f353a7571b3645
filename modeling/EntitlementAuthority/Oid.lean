import EntitlementAuthority.Fault
import EntitlementAuthority.Text.Fields
import EntitlementAuthority.Text.Integer

/-!
# Object identifiers

Certificate extensions are named by object identifiers. Those of this authority lie below one
base, and the numeric ids of products and contents are arcs of their identifiers.

* `Oid` — a list of arcs; `Oid.text` and `Oid.parse` are its dotted form and its reader.
* `Oid.entitlement` — the identifiers below the base.
* `Oid.product`, `Oid.content`, `Oid.order` — the three families of attributes.
* `contentTypeArc?` — the content types that an identifier can name.
-/

namespace EntitlementAuthority

/-- An object identifier: arcs that fit a 64-bit word, outermost first. -/
structure Oid where
  arcs : List Nat
deriving DecidableEq, Repr

namespace Oid

/-- The dotted form: decimal arcs with a dot between neighbours. -/
def text (o : Oid) : String :=
  Text.joinWith "." (o.arcs.map toString)

/-- Reads the dotted form: at least two arcs, each a 64-bit word. -/
def parse (s : String) : Outcome Oid :=
  match (Text.splitOnChar '.' s.toList).mapM fun arc => Text.readWord64? (String.ofList arc) with
  | some (a :: b :: arcs) => .ok ⟨a :: b :: arcs⟩
  | _ => .error (.validation ("invalid OID: " ++ s))

/-- The identifier one arc below. -/
def child (o : Oid) (arc : Nat) : Oid :=
  ⟨o.arcs ++ [arc]⟩

/-- Whether `o` is `base` or lies below it. -/
def isUnder (o base : Oid) : Bool :=
  base.arcs.isPrefixOf o.arcs

/-- The arcs above every identifier of this authority. -/
def baseArcs : List Nat := [1, 3, 6, 1, 4, 1, 2312, 9]

/-- An identifier below the base. -/
def entitlement (suffix : List Nat) : Oid :=
  ⟨baseArcs ++ suffix⟩

/-- The base itself. -/
def base : Oid := entitlement []

/-- The version of the entitlement data. -/
def version : Oid := entitlement [6]

/-- The tree of content paths. -/
def contentTree : Oid := entitlement [7]

/-- The type of the certificate. -/
def certificateType : Oid := entitlement [8]

/-- The product namespace. -/
def productNamespace : Oid := entitlement [10]

/-- The consumer that a legacy certificate is issued to. -/
def consumer : Oid := entitlement [5, 1]

/-- An attribute of a product. -/
def product (productId field : Nat) : Oid :=
  entitlement [1, productId, field]

/-- A content of some type; its attributes lie one arc below. -/
def content (contentId typeArc : Nat) : Oid :=
  entitlement [2, contentId, typeArc]

/-- An attribute of the order. -/
def order (field : Nat) : Oid :=
  entitlement [4, 1, field]

@[simp] theorem arcs_child (o : Oid) (arc : Nat) : (o.child arc).arcs = o.arcs ++ [arc] := rfl

theorem entitlement_injective {s t : List Nat} (h : entitlement s = entitlement t) : s = t := by
  simpa [entitlement] using h

end Oid

/-- The arc of a content type; other types cannot be expressed in an identifier. -/
def contentTypeArc? (type : String) : Option Nat :=
  if type = "yum" then some 1
  else if type = "file" then some 2
  else if type = "kickstart" then some 3
  else none

namespace ProductField

/-- Attributes of a product. -/
def name : Nat := 1
def variant : Nat := 2
def arches : Nat := 3
def version : Nat := 4
def brandType : Nat := 5
def brandName : Nat := 7

end ProductField

namespace ContentField

/-- Attributes of a content. -/
def name : Nat := 1
def label : Nat := 2
def vendor : Nat := 5
def path : Nat := 6
def gpgUrl : Nat := 7
def enabled : Nat := 8
def metadataExpire : Nat := 9
def requiredTags : Nat := 10
def arches : Nat := 11

end ContentField

namespace OrderField

/-- Attributes of an order and of the subscription behind it. -/
def name : Nat := 1
def number : Nat := 2
def sku : Nat := 3
def subscription : Nat := 4
def quantity : Nat := 5
def startDate : Nat := 6
def endDate : Nat := 7
def sockets : Nat := 9
def contract : Nat := 10
def quantityUsed : Nat := 11
def warningPeriod : Nat := 12
def account : Nat := 13
def management : Nat := 14
def supportLevel : Nat := 15
def supportType : Nat := 16
def stackingId : Nat := 17
def virtOnly : Nat := 18

end OrderField

end EntitlementAuthority
