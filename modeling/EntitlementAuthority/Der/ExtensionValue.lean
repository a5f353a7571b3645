import EntitlementAuthority.Fault
import EntitlementAuthority.Der.Length

/-!
# Values of entitlement extensions

The value of an entitlement extension is text or bytes, written as one DER element.

* `ExtensionValue.der` — a UTF8String for text, an OCTET STRING for bytes.
* `ExtensionValue.ofDer` — reads a value back.
-/

namespace EntitlementAuthority

/-- The value of an entitlement extension. -/
inductive ExtensionValue where
  | text (s : String)
  | bytes (b : Bytes)
deriving DecidableEq, Repr

namespace ExtensionValue

/-- The tag byte of a UTF8String. -/
def textTag : UInt8 := 0x0c

/-- The tag byte of an OCTET STRING. -/
def bytesTag : UInt8 := 0x04

/-- The DER form of a value. -/
def der : ExtensionValue → Bytes
  | text s => Der.element textTag (Bytes.ofText s)
  | bytes b => Der.element bytesTag b

/-- Reads one UTF8String or one OCTET STRING that fills the whole input. -/
def ofDer (input : Bytes) : Outcome ExtensionValue :=
  let unreadable := Fault.malformed "unreadable extension value: not one string element"
  match Der.readWhole? input with
  | none => .error unreadable
  | some (tag, contents) =>
    if tag = textTag then
      match Bytes.toText? contents with
      | some s => .ok (text s)
      | none => .error unreadable
    else if tag = bytesTag then .ok (bytes contents)
    else .error unreadable

/-- The text of a text value. -/
def asText? : ExtensionValue → Option String
  | text s => some s
  | bytes _ => none

end ExtensionValue

end EntitlementAuthority
