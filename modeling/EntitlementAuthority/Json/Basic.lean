import EntitlementAuthority.Bytes.Basic

/-!
# JSON values

A JSON value is kept as it is written: strings without their quotes but with their escapes, and
numbers digit by digit. What a string or a number stands for is worked out when it is asked for,
so that a value nobody asks for has only to be well formed.

* `Json` — a value.
* `Json.Token` — the tokens of a JSON text; `Json.tokens` are those of a value.
* `Json.render` — the text of a value without any blanks.
-/

namespace EntitlementAuthority

/-- A JSON value as it is written. -/
inductive Json where
  | null
  | bool (b : Bool)
  /-- The characters of a number. -/
  | number (digits : Bytes)
  /-- What stands between the quotes of a string. -/
  | string (raw : Bytes)
  | array (items : List Json)
  /-- The members of an object: what stands between the quotes of a name, and the value. -/
  | object (members : List (Bytes × Json))
deriving Inhabited

namespace Json

/-- A token of a JSON text. -/
inductive Token where
  | openArray
  | closeArray
  | openObject
  | closeObject
  | comma
  | colon
  | null
  | bool (b : Bool)
  | number (digits : Bytes)
  | string (raw : Bytes)
deriving DecidableEq, Repr

/-! ### The tokens of a value -/

mutual

/-- The tokens of a value. -/
def tokens : Json → List Token
  | null => [.null]
  | bool b => [.bool b]
  | number digits => [.number digits]
  | string raw => [.string raw]
  | array items => .openArray :: (tokensOfItems items ++ [.closeArray])
  | object members => .openObject :: (tokensOfMembers members ++ [.closeObject])

/-- The tokens of the items of an array, with commas between neighbours. -/
def tokensOfItems : List Json → List Token
  | [] => []
  | [v] => tokens v
  | v :: vs => tokens v ++ .comma :: tokensOfItems vs

/-- The tokens of the members of an object, with commas between neighbours. -/
def tokensOfMembers : List (Bytes × Json) → List Token
  | [] => []
  | [(k, v)] => .string k :: .colon :: tokens v
  | (k, v) :: ms => .string k :: .colon :: (tokens v ++ .comma :: tokensOfMembers ms)

end

/-- The bytes of a token. -/
def Token.bytes : Token → Bytes
  | .openArray => [0x5B]
  | .closeArray => [0x5D]
  | .openObject => [0x7B]
  | .closeObject => [0x7D]
  | .comma => [0x2C]
  | .colon => [0x3A]
  | .null => Bytes.ofText "null"
  | .bool true => Bytes.ofText "true"
  | .bool false => Bytes.ofText "false"
  | .number digits => digits
  | .string raw => 0x22 :: (raw ++ [0x22])

/-- The text of a value without any blanks. -/
def render (v : Json) : Bytes :=
  v.tokens.flatMap Token.bytes

end Json

end EntitlementAuthority
