import EntitlementAuthority.Body.Basic
import EntitlementAuthority.Fault
import EntitlementAuthority.Json.Reader
import EntitlementAuthority.Json.Record

/-!
# Entitlement bodies in JSON

* `EntitlementBody.toJson`, `EntitlementBody.ofJson?` — bodies as JSON values. Absent optional
  fields are left out when writing, and so are empty lists of architectures and tags.
* `EntitlementBody.bytes` — the text of a body.
* `EntitlementBody.read` — the body that a text holds.
-/

namespace EntitlementAuthority

/-! ### Fields -/

/-- Text that a field always has. -/
def jsonText (s : String) : Option Json :=
  some (Json.ofText s)

/-- Text that a field may have. -/
def jsonText? (s : Option String) : Option Json :=
  s.map Json.ofText

/-- A whole number that a field may have. -/
def jsonInt? (n : Option Int) : Option Json :=
  n.map Json.ofInt

/-- A truth value that a field may have. -/
def jsonBool? (b : Option Bool) : Option Json :=
  b.map Json.bool

/-- A list of texts. -/
def jsonTexts (texts : List String) : Json :=
  .array (texts.map Json.ofText)

/-- A list of texts that is left out if it is empty. -/
def jsonTextsUnlessEmpty (texts : List String) : Option Json :=
  if texts.isEmpty then none else some (jsonTexts texts)

/-- Reads a list of texts. -/
def texts? : Json → Option (List String) :=
  Json.listOf? Json.text?

/-! ### Contents -/

namespace ContentModel

/-- A content as a JSON value. -/
def toJson (c : ContentModel) : Json :=
  Json.ofFields
    [("id", jsonText c.id), ("type", jsonText c.type), ("name", jsonText c.name),
      ("label", jsonText c.label), ("vendor", jsonText c.vendor), ("path", jsonText c.path),
      ("gpg_url", jsonText? c.gpgUrl), ("enabled", jsonBool? c.enabled),
      ("metadata_expire", jsonInt? c.metadataExpire),
      ("required_tags", jsonTextsUnlessEmpty c.requiredTags),
      ("arches", jsonTextsUnlessEmpty c.arches)]

/-- The names of the fields. -/
def fieldNames : List String :=
  ["id", "type", "name", "label", "vendor", "path", "gpg_url", "enabled", "metadata_expire",
    "required_tags", "arches"]

/-- Reads a content. -/
def ofJson? (v : Json) : Option ContentModel := do
  match ← Json.fields? fieldNames v with
  | [id, type, name, label, vendor, path, gpgUrl, enabled, metadataExpire, requiredTags, arches] =>
    some {
      id := ← Json.required? Json.text? id
      type := ← Json.required? Json.text? type
      name := ← Json.required? Json.text? name
      label := ← Json.required? Json.text? label
      vendor := ← Json.required? Json.text? vendor
      path := ← Json.required? Json.text? path
      gpgUrl := ← Json.maybe? Json.text? gpgUrl
      enabled := ← Json.maybe? Json.bool? enabled
      metadataExpire := ← Json.maybe? Json.int64? metadataExpire
      requiredTags := ← Json.orElse? [] texts? requiredTags
      arches := ← Json.orElse? [] texts? arches }
  | _ => none

end ContentModel

/-! ### Products -/

namespace ProductModel

/-- A product as a JSON value. -/
def toJson (p : ProductModel) : Json :=
  Json.ofFields
    [("id", jsonText p.id), ("name", jsonText p.name), ("variant", jsonText? p.variant),
      ("version", jsonText? p.version), ("brand_type", jsonText? p.brandType),
      ("brand_name", jsonText? p.brandName),
      ("architectures", jsonTextsUnlessEmpty p.architectures),
      ("content", some (.array (p.contents.map ContentModel.toJson)))]

/-- The names of the fields. -/
def fieldNames : List String :=
  ["id", "name", "variant", "version", "brand_type", "brand_name", "architectures", "content"]

/-- Reads a product. -/
def ofJson? (v : Json) : Option ProductModel := do
  match ← Json.fields? fieldNames v with
  | [id, name, variant, version, brandType, brandName, architectures, contents] =>
    some {
      id := ← Json.required? Json.text? id
      name := ← Json.required? Json.text? name
      variant := ← Json.maybe? Json.text? variant
      version := ← Json.maybe? Json.text? version
      brandType := ← Json.maybe? Json.text? brandType
      brandName := ← Json.maybe? Json.text? brandName
      architectures := ← Json.orElse? [] texts? architectures
      contents := ← Json.orElse? [] (Json.listOf? ContentModel.ofJson?) contents }
  | _ => none

end ProductModel

/-! ### Subscriptions and orders -/

namespace ServiceModel

/-- Support as a JSON value. -/
def toJson (s : ServiceModel) : Json :=
  Json.ofFields [("level", jsonText? s.level), ("type", jsonText? s.type)]

/-- Reads support. -/
def ofJson? (v : Json) : Option ServiceModel := do
  match ← Json.fields? ["level", "type"] v with
  | [level, type] =>
    some {
      level := ← Json.maybe? Json.text? level
      type := ← Json.maybe? Json.text? type }
  | _ => none

end ServiceModel

namespace SubscriptionModel

/-- A subscription as a JSON value. -/
def toJson (s : SubscriptionModel) : Json :=
  Json.ofFields
    [("sku", jsonText s.sku), ("name", jsonText s.name), ("warning", jsonInt? s.warning),
      ("sockets", jsonInt? s.sockets), ("ram", jsonInt? s.ram), ("cores", jsonInt? s.cores),
      ("management", jsonBool? s.management), ("stacking_id", jsonText? s.stackingId),
      ("virt_only", jsonBool? s.virtOnly), ("service", s.service.map ServiceModel.toJson),
      ("usage", jsonText? s.usage), ("roles", s.roles.map jsonTexts),
      ("addons", s.addons.map jsonTexts)]

/-- The names of the fields. -/
def fieldNames : List String :=
  ["sku", "name", "warning", "sockets", "ram", "cores", "management", "stacking_id", "virt_only",
    "service", "usage", "roles", "addons"]

/-- Reads a subscription. -/
def ofJson? (v : Json) : Option SubscriptionModel := do
  match ← Json.fields? fieldNames v with
  | [sku, name, warning, sockets, ram, cores, management, stackingId, virtOnly, service, usage,
      roles, addons] =>
    some {
      sku := ← Json.required? Json.text? sku
      name := ← Json.required? Json.text? name
      warning := ← Json.maybe? Json.int64? warning
      sockets := ← Json.maybe? Json.int64? sockets
      ram := ← Json.maybe? Json.int64? ram
      cores := ← Json.maybe? Json.int64? cores
      management := ← Json.maybe? Json.bool? management
      stackingId := ← Json.maybe? Json.text? stackingId
      virtOnly := ← Json.maybe? Json.bool? virtOnly
      service := ← Json.maybe? ServiceModel.ofJson? service
      usage := ← Json.maybe? Json.text? usage
      roles := ← Json.maybe? texts? roles
      addons := ← Json.maybe? texts? addons }
  | _ => none

end SubscriptionModel

namespace OrderModel

/-- An order as a JSON value. -/
def toJson (o : OrderModel) : Json :=
  Json.ofFields
    [("number", jsonText? o.number), ("quantity", some (Json.ofInt o.quantity)),
      ("start", jsonText o.startDate), ("end", jsonText o.endDate),
      ("contract", jsonText? o.contract), ("account", jsonText? o.account)]

/-- Reads an order. -/
def ofJson? (v : Json) : Option OrderModel := do
  match ← Json.fields? ["number", "quantity", "start", "end", "contract", "account"] v with
  | [number, quantity, startDate, endDate, contract, account] =>
    some {
      number := ← Json.maybe? Json.text? number
      quantity := ← Json.required? Json.int64? quantity
      startDate := ← Json.required? Json.text? startDate
      endDate := ← Json.required? Json.text? endDate
      contract := ← Json.maybe? Json.text? contract
      account := ← Json.maybe? Json.text? account }
  | _ => none

end OrderModel

/-- A pool, of which only the id is shown, as a JSON value. -/
def poolToJson (id : String) : Json :=
  Json.ofFields [("id", jsonText id)]

/-- Reads the id of a pool. -/
def poolOfJson? (v : Json) : Option String := do
  match ← Json.fields? ["id"] v with
  | [id] => Json.required? Json.text? id
  | _ => none

/-! ### Bodies -/

namespace EntitlementBody

/-- A body as a JSON value. -/
def toJson (b : EntitlementBody) : Json :=
  Json.ofFields
    [("consumer", jsonText b.consumer), ("quantity", jsonInt? b.quantity),
      ("subscription", b.subscription.map SubscriptionModel.toJson),
      ("order", b.order.map OrderModel.toJson), ("pool", b.pool.map poolToJson),
      ("products", some (.array (b.products.map ProductModel.toJson)))]

/-- The names of the fields. -/
def fieldNames : List String :=
  ["consumer", "quantity", "subscription", "order", "pool", "products"]

/-- Reads a body. -/
def ofJson? (v : Json) : Option EntitlementBody := do
  match ← Json.fields? fieldNames v with
  | [consumer, quantity, subscription, order, pool, products] =>
    some {
      consumer := ← Json.required? Json.text? consumer
      quantity := ← Json.maybe? Json.int64? quantity
      subscription := ← Json.maybe? SubscriptionModel.ofJson? subscription
      order := ← Json.maybe? OrderModel.ofJson? order
      pool := ← Json.maybe? poolOfJson? pool
      products := ← Json.orElse? [] (Json.listOf? ProductModel.ofJson?) products }
  | _ => none

/-- The text of a body. -/
def bytes (b : EntitlementBody) : Bytes :=
  b.toJson.render

/-- The body that a text holds. -/
def read (input : Bytes) : Outcome EntitlementBody :=
  match Json.read? input with
  | none => .error (.serialization "not a JSON text")
  | some v =>
    match ofJson? v with
    | some b => .ok b
    | none => .error (.serialization "not an entitlement body")

end EntitlementBody

end EntitlementAuthority
