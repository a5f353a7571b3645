import EntitlementAuthority.Json.Text

/-!
# Records in JSON

A record with named fields is written as an object, or as an array of its fields in their order.

* `Json.fields?` — the values of named fields, missing ones left out. A field must not occur
  twice, and what other members hold is of no interest.
* `Json.required?`, `Json.orElse?` — what a field holds, or its value when it is missing.
* `Json.ofFields` — a record as an object.
-/

namespace EntitlementAuthority.Json

/-- Enters the members of an object: the value of a known name is put where it belongs, which
must be free. -/
def enterMember? (names : List String) (found : List (Option Json)) (member : Bytes × Json) :
    Option (List (Option Json)) :=
  match unescape? member.1 with
  | none => none
  | some name =>
    match names.idxOf? name with
    | none => some found
    | some i =>
      match found[i]? with
      | some none => some (found.set i (some member.2))
      | _ => none

/-- The values of the named fields, in the order of the names. -/
def fields? (names : List String) : Json → Option (List (Option Json))
  | .object members => members.foldlM (enterMember? names) (names.map fun _ => none)
  | .array items =>
    if items.length ≤ names.length then
      some (items.map some ++ List.replicate (names.length - items.length) none)
    else none
  | _ => none

/-- What a field holds; it must not be missing. -/
def required? {α : Type} (f : Json → Option α) (field : Option Json) : Option α :=
  field.bind f

/-- What a field holds, or `missing` if it is missing. -/
def orElse? {α : Type} (missing : α) (f : Json → Option α) : Option Json → Option α
  | none => some missing
  | some v => f v

/-- What an optional field holds: nothing if it is missing or null. -/
def maybe? {α : Type} (f : Json → Option α) (field : Option Json) : Option (Option α) :=
  orElse? none (optional? f) field

/-- A record as an object of its fields, absent ones left out. -/
def ofFields (fields : List (String × Option Json)) : Json :=
  .object (fields.filterMap fun (name, v) => v.map fun v => (escape name, v))

end EntitlementAuthority.Json
